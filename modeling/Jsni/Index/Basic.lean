import Jsni.Index.Member

/-!
# Type indexes

A type index answers questions about single types, and any answer may be a failure. It knows
finitely many types, and the links it reports lead to those only.
-/

namespace Jsni

structure TypeIndex where
  /-- The names that superclass and interface links may lead to. -/
  typeNames : List String
  findType : String → Except IndexError (Option JavaType)
  /-- The direct superclass. -/
  superclass : JavaType → Except IndexError (Option JavaType)
  /-- The interfaces that a class implements or an interface extends, as declared. -/
  interfaces : JavaType → Except IndexError (List JavaType)
  /-- The declared constructors. -/
  constructors : JavaType → Except IndexError (List Method)
  /-- The methods of a name that the type itself declares. -/
  methods : JavaType → String → Except IndexError (List Method)
  /-- The fields of a name that the type itself declares. -/
  fields : JavaType → String → Except IndexError (List Field)
  superclass_known : ∀ {t s}, superclass t = .ok (some s) → s.name ∈ typeNames
  interfaces_known : ∀ {t is}, interfaces t = .ok is → ∀ i ∈ is, i.name ∈ typeNames

namespace TypeIndex

/-- The answer for the first of several names that has one. A failure counts as an answer. -/
def findFirst (idx : TypeIndex) : List String → Except IndexError (Option JavaType)
  | []            => .ok none
  | name :: names =>
    match idx.findType name with
    | .error e      => .error e
    | .ok (some t)  => .ok (some t)
    | .ok none      => idx.findFirst names

theorem findFirst_append (idx : TypeIndex) (first second : List String) :
    idx.findFirst (first ++ second)
      = match idx.findFirst first with
        | .ok none => idx.findFirst second
        | answer   => answer := by
  induction first with
  | nil => rfl
  | cons name first ih =>
    rw [List.cons_append, findFirst, findFirst]
    cases idx.findType name with
    | error e => rfl
    | ok found =>
      cases found with
      | some t => rfl
      | none => exact ih

end TypeIndex

end Jsni

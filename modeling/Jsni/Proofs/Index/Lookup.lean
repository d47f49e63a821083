import Jsni.Index.Lookup
import Jsni.Proofs.Index.Hierarchy

/-!
# Member look-up in a static index

What the type entries of a static index declare, and the look-ups said through it: the first type
of a fixed order that declares a fitting member decides, and only the members that this one type
declares are in the outcome.
-/

namespace Jsni

/-! ## Declarations -/

theorem Method.hasSignature_iff {m : Method} {signature : String} :
    m.hasSignature signature ↔ signature = anySignature ∨ m.descriptor = signature := by
  simp [Method.hasSignature]

namespace StaticIndex

/-- The entry of a type declares a method of the given name that fits the signature. -/
def DeclaresMethod (s : StaticIndex) (typeName name signature : String) (m : Method) : Prop :=
  ∃ d, s.find? typeName = some d ∧ ⟨name, m.parameters⟩ ∈ d.methods ∧ m.name = name ∧
    m.declaringType = typeName ∧ (signature = anySignature ∨ m.descriptor = signature)

/-- The entry of a type declares a constructor that fits the signature, or it is a class without
declared constructors and the one without parameters fits. -/
def DeclaresConstructor (s : StaticIndex) (typeName signature : String) (m : Method) : Prop :=
  ∃ d, s.find? typeName = some d ∧ m = .constructor typeName m.parameters ∧
    (m.parameters ∈ d.constructors ∨
      d.constructors = [] ∧ d.kind = .classKind ∧ m.parameters = []) ∧
    (signature = anySignature ∨ m.descriptor = signature)

def DeclaresField (s : StaticIndex) (typeName name : String) (f : Field) : Prop :=
  ∃ d, s.find? typeName = some d ∧ ⟨name, f.type⟩ ∈ d.fields ∧ f.name = name ∧
    f.declaringType = typeName

theorem mem_methodsOf_iff {s : StaticIndex} {typeName name signature : String} {m : Method} :
    m ∈ (s.methodsOf typeName name).filter (·.hasSignature signature)
      ↔ s.DeclaresMethod typeName name signature m := by
  rw [methodsOf_eq, DeclaresMethod]
  cases hfind : s.find? typeName with
  | none => simp
  | some d =>
    simp only [Option.elim_some, List.mem_filter, List.mem_map, decide_eq_true_eq,
      Method.hasSignature_iff, Option.some.injEq, exists_eq_left']
    constructor
    · rintro ⟨⟨decl, ⟨hdecl, rfl⟩, rfl⟩, hfits⟩
      exact ⟨hdecl, rfl, rfl, hfits⟩
    · rintro ⟨hdecl, rfl, rfl, hfits⟩
      exact ⟨⟨_, ⟨hdecl, rfl⟩, rfl⟩, hfits⟩

theorem mem_fieldsOf_iff {s : StaticIndex} {typeName name : String} {f : Field} :
    f ∈ s.fieldsOf typeName name ↔ s.DeclaresField typeName name f := by
  rw [fieldsOf_eq, DeclaresField]
  cases hfind : s.find? typeName with
  | none => simp
  | some d =>
    simp only [Option.elim_some, List.mem_map, List.mem_filter, decide_eq_true_eq,
      Option.some.injEq, exists_eq_left']
    constructor
    · rintro ⟨decl, ⟨hdecl, rfl⟩, rfl⟩
      exact ⟨hdecl, rfl, rfl⟩
    · rintro ⟨hdecl, rfl, rfl⟩
      exact ⟨_, ⟨hdecl, rfl⟩, rfl⟩

theorem mem_availableConstructors_iff {s : StaticIndex} {t : JavaType} {signature : String}
    {m : Method} (ht : s.typeOf? t.name = some t) :
    m ∈ (TypeIndex.availableConstructors t (s.constructorsOf t.name)).filter
        (·.hasSignature signature)
      ↔ s.DeclaresConstructor t.name signature m := by
  obtain ⟨d, hfind, hkind⟩ := Option.map_eq_some_iff.1 ((s.typeOf?_eq t.name).symm.trans ht)
  have hkind : t.kind = d.kind := (congrArg JavaType.kind hkind).symm
  rw [TypeIndex.availableConstructors, constructorsOf_eq, DeclaresConstructor]
  simp only [hfind, hkind, Option.elim_some, List.mem_filter, Method.hasSignature_iff,
    Option.some.injEq, exists_eq_left', List.map_eq_nil_iff]
  split
  · rename_i himplicit
    simp only [himplicit, List.mem_singleton, List.not_mem_nil, false_or, true_and]
    constructor
    · rintro ⟨rfl, hfits⟩
      exact ⟨rfl, rfl, hfits⟩
    · rintro ⟨hm, hnone, hfits⟩
      exact ⟨hnone ▸ hm, hfits⟩
  · rename_i hdeclared
    simp only [List.mem_map, ← and_assoc, hdeclared, false_and, or_false]
    refine and_congr_left fun _ => ⟨?_, ?_⟩
    · rintro ⟨parameters, hmem, rfl⟩
      exact ⟨rfl, hmem⟩
    · rintro ⟨hm, hmem⟩
      exact ⟨_, hmem, hm.symm⟩

end StaticIndex

/-! ## The first decision -/

/-- What the overloads that fit a reference make of it. -/
def Outcome.ofOverloads? (resolved : JavaType → Method → Outcome) (owner : JavaType) :
    List Method → Option Outcome
  | []  => none
  | [m] => some (resolved owner m)
  | ms  => some (.ambiguous owner ms)

namespace TypeIndex

variable {idx : TypeIndex} {h : Hierarchy}

theorem firstDecided_eq {decide : JavaType → Except IndexError (Option Outcome)}
    {f : JavaType → Option Outcome} (hd : ∀ u, decide u = .ok (f u)) (ts : List JavaType) :
    firstDecided decide ts = .ok (ts.findSome? f) := by
  induction ts with
  | nil => rfl
  | cons t ts ih =>
    simp only [firstDecided, hd, List.findSome?_cons]
    cases f t with
    | none => exact ih
    | some o => rfl

theorem decideAlong_eq (hf : idx.Follows h) {decide : JavaType → Except IndexError (Option Outcome)}
    {f : JavaType → Option Outcome} (hd : ∀ u, decide u = .ok (f u)) (t : JavaType) :
    idx.decideAlong decide t = .ok ((t :: (idx.supertypes t).types).findSome? f) := by
  have hfailure : (idx.supertypes t).failure = none := by rw [supertypes_eq hf]
  simp only [decideAlong, firstDecided_eq hd, hfailure]
  cases (t :: (idx.supertypes t).types).findSome? f <;> rfl

theorem findFirst_eq {f : String → Option JavaType} (hd : ∀ n, idx.findType n = .ok (f n))
    (names : List String) : idx.findFirst names = .ok (names.findSome? f) := by
  induction names with
  | nil => rfl
  | cons n names ih =>
    simp only [findFirst, hd, List.findSome?_cons]
    cases f n with
    | none => exact ih
    | some t => rfl

/-! ## Decisions of one type -/

/-- The methods of a name that a type declares and a signature stands for. -/
def overloads (idx : TypeIndex) (name signature : String) (u : JavaType) :
    Except IndexError (List Method) :=
  (idx.methods u name).map (·.filter (·.hasSignature signature))

theorem matchMethods_eq_map (idx : TypeIndex) (owner : JavaType) (name signature : String)
    (u : JavaType) :
    idx.matchMethods owner name signature u
      = (idx.overloads name signature u).map (Outcome.ofOverloads? .resolvedMethod owner) := by
  unfold matchMethods overloads
  cases idx.methods u name with
  | error e => rfl
  | ok ms =>
    simp only [bind, Except.bind, Except.map]
    cases ms.filter (·.hasSignature signature) with
    | nil => rfl
    | cons m ms => cases ms <;> rfl

theorem matchFields_eq_map (idx : TypeIndex) (owner : JavaType) (name : String) (u : JavaType) :
    idx.matchFields owner name u
      = (idx.fields u name).map fun fs => fs.head?.map (.resolvedField owner) := by
  unfold matchFields
  cases idx.fields u name with
  | error e => rfl
  | ok fs => cases fs <;> rfl

end TypeIndex

/-! ## Look-ups -/

namespace StaticIndex

/-- The types asked for a field, in order. -/
def fieldOrder (s : StaticIndex) (t : JavaType) : List JavaType :=
  t :: (s.toIndex.supertypes t).types

/-- The types asked for a method, in order. -/
def methodOrder (s : StaticIndex) (t : JavaType) : List JavaType :=
  s.fieldOrder t ++ if t.isInterface then (s.typeOf? JavaType.objectName).toList else []

/-- What the methods of one type make of a reference. -/
def methodOutcome? (s : StaticIndex) (t : JavaType) (name signature : String) (u : JavaType) :
    Option Outcome :=
  Outcome.ofOverloads? .resolvedMethod t
    ((s.methodsOf u.name name).filter (·.hasSignature signature))

def fieldOutcome? (s : StaticIndex) (t : JavaType) (name : String) (u : JavaType) :
    Option Outcome :=
  (s.fieldsOf u.name name).head?.map (.resolvedField t)

theorem matchMethods_eq (s : StaticIndex) (t : JavaType) (name signature : String) (u : JavaType) :
    s.toIndex.matchMethods t name signature u = .ok (s.methodOutcome? t name signature u) :=
  s.toIndex.matchMethods_eq_map t name signature u

theorem matchFields_eq (s : StaticIndex) (t : JavaType) (name : String) (u : JavaType) :
    s.toIndex.matchFields t name u = .ok (s.fieldOutcome? t name u) :=
  s.toIndex.matchFields_eq_map t name u

theorem findMethod_eq (s : StaticIndex) (t : JavaType) (name signature : String) :
    s.toIndex.findMethod t name signature
      = .ok (((s.methodOrder t).findSome? (s.methodOutcome? t name signature)).getD
          (.unresolvedMethod t)) := by
  have hfind : s.toIndex.findType JavaType.objectName = .ok (s.typeOf? JavaType.objectName) := rfl
  unfold TypeIndex.findMethod methodOrder fieldOrder
  rw [TypeIndex.decideAlong_eq s.follows (s.matchMethods_eq t name signature),
    List.findSome?_append]
  cases (t :: (s.toIndex.supertypes t).types).findSome? (s.methodOutcome? t name signature) with
  | some o => rfl
  | none =>
    -- Nothing along the walk decides, so an interface goes on with the root class.
    cases t.isInterface with
    | false => rfl
    | true =>
      rw [hfind]
      cases s.typeOf? JavaType.objectName with
      | none => rfl
      | some object =>
        simp only [bind, Except.bind, s.matchMethods_eq, if_true, Option.toList_some,
          List.findSome?_cons, List.findSome?_nil, Option.none_or]
        cases s.methodOutcome? t name signature object <;> rfl

theorem findField_eq (s : StaticIndex) (t : JavaType) (name : String) :
    s.toIndex.findField t name
      = .ok (((s.fieldOrder t).findSome? (s.fieldOutcome? t name)).getD (.unresolvedField t)) := by
  unfold TypeIndex.findField fieldOrder
  rw [TypeIndex.decideAlong_eq s.follows (s.matchFields_eq t name)]
  rfl

theorem findConstructor_eq (s : StaticIndex) (t : JavaType) (signature : String) :
    s.toIndex.findConstructor t signature
      = .ok ((Outcome.ofOverloads? .resolvedConstructor t
          ((TypeIndex.availableConstructors t (s.constructorsOf t.name)).filter
            (·.hasSignature signature))).getD (.unresolvedMethod t)) := by
  have hdeclared : s.toIndex.constructors t = .ok (s.constructorsOf t.name) := rfl
  unfold TypeIndex.findConstructor Outcome.ofOverloads?
  rw [hdeclared]
  simp only [bind, Except.bind]
  cases (TypeIndex.availableConstructors t (s.constructorsOf t.name)).filter
      (·.hasSignature signature) with
  | nil => rfl
  | cons m ms => cases ms <;> rfl

end StaticIndex

end Jsni

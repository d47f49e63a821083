import Jsni.Index.Lookup
import Jsni.Reference.Basic
import Jsni.Resolution.Scope

/-!
# Resolving references
-/

namespace Jsni.TypeIndex

/-- What a reference stands for. The index is not asked about references to `null`. -/
def resolve (idx : TypeIndex) (context : ImportContext) (r : Reference) :
    Except IndexError Outcome := do
  if r.isNull then
    return .ignoredNull
  match ← idx.resolveType context r.className with
  | none   => return .unresolvedType
  | some t =>
    match r.kind with
    | .classOnly   => return .resolvedClass t
    | .constructor => idx.findConstructor t r.signature
    | .method      => idx.findMethod t r.memberName r.signature
    | .field       => idx.findField t r.memberName

theorem resolve_of_null (idx : TypeIndex) (context : ImportContext) {r : Reference}
    (hr : r.className = Reference.nullName) : idx.resolve context r = .ok .ignoredNull := by
  have hnull : r.isNull = true := decide_eq_true hr
  rw [resolve, if_pos hnull]
  rfl

end Jsni.TypeIndex

import Jsni.Index.Member

/-!
# Outcomes of resolving a reference
-/

namespace Jsni

/-- What resolving one reference came to. `owner` is the type that the class name stands for, kept
also where the member look-up failed. -/
inductive Outcome where
  | resolvedMethod (owner : JavaType) (target : Method)
  | resolvedField (owner : JavaType) (target : Field)
  | resolvedConstructor (owner : JavaType) (target : Method)
  | resolvedClass (owner : JavaType)
  | unresolvedType
  | unresolvedMethod (owner : JavaType)
  | unresolvedField (owner : JavaType)
  | ambiguous (owner : JavaType) (candidates : List Method)
  /-- References to the class `null` are never checked. -/
  | ignoredNull
deriving DecidableEq, Repr, Inhabited

namespace Outcome

def isResolved : Outcome → Bool
  | resolvedMethod ..      => true
  | resolvedField ..       => true
  | resolvedConstructor .. => true
  | resolvedClass _        => true
  | _                      => false

def owner? : Outcome → Option JavaType
  | resolvedMethod t _      => some t
  | resolvedField t _       => some t
  | resolvedConstructor t _ => some t
  | resolvedClass t         => some t
  | unresolvedMethod t      => some t
  | unresolvedField t       => some t
  | ambiguous t _           => some t
  | unresolvedType          => none
  | ignoredNull             => none

end Outcome

end Jsni

import Jsni.Index.Supertypes
import Jsni.Outcome

/-!
# Member look-up

Methods and fields are looked up in a type and then along its supertype walk; the first type that
declares a match decides. Constructors are looked up in the type alone.
-/

namespace Jsni

/-- The signature that stands for any parameter list. -/
def anySignature : String :=
  "*"

def Method.hasSignature (m : Method) (signature : String) : Bool :=
  signature = anySignature || m.descriptor = signature

namespace TypeIndex

/-- What the methods that `candidate` declares make of a reference to `owner`, if any match. -/
def matchMethods (idx : TypeIndex) (owner : JavaType) (name signature : String)
    (candidate : JavaType) : Except IndexError (Option Outcome) := do
  match (← idx.methods candidate name).filter (·.hasSignature signature) with
  | []  => return none
  | [m] => return some (.resolvedMethod owner m)
  | ms  => return some (.ambiguous owner ms)

def matchFields (idx : TypeIndex) (owner : JavaType) (name : String) (candidate : JavaType) :
    Except IndexError (Option Outcome) := do
  match ← idx.fields candidate name with
  | []     => return none
  | f :: _ => return some (.resolvedField owner f)

/-- The first decision along a list of types. -/
def firstDecided (decide : JavaType → Except IndexError (Option Outcome)) :
    List JavaType → Except IndexError (Option Outcome)
  | []      => .ok none
  | t :: ts =>
    match decide t with
    | .error e       => .error e
    | .ok (some o)   => .ok (some o)
    | .ok none       => firstDecided decide ts

/-- The first decision in a type and its supertypes. A walk cut short fails if nothing was decided
before the cut. -/
def decideAlong (idx : TypeIndex) (decide : JavaType → Except IndexError (Option Outcome))
    (t : JavaType) : Except IndexError (Option Outcome) := do
  let walk := idx.supertypes t
  match ← firstDecided decide (t :: walk.types), walk.failure with
  | some o, _      => return some o
  | none,   some e => throw e
  | none,   none   => return none

/-- Find a method by name and signature. Interfaces also see the methods of the root class. -/
def findMethod (idx : TypeIndex) (t : JavaType) (name signature : String) :
    Except IndexError Outcome := do
  if let some o ← idx.decideAlong (idx.matchMethods t name signature) t then
    return o
  if t.isInterface then
    if let some object ← idx.findType JavaType.objectName then
      if let some o ← idx.matchMethods t name signature object then
        return o
  return .unresolvedMethod t

/-- Find a field by name. -/
def findField (idx : TypeIndex) (t : JavaType) (name : String) : Except IndexError Outcome := do
  return (← idx.decideAlong (idx.matchFields t name) t).getD (.unresolvedField t)

/-- A class that declares no constructor has one without parameters. -/
def availableConstructors (t : JavaType) (declared : List Method) : List Method :=
  if declared = [] ∧ t.kind = .classKind then [.constructor t.name []]
  else declared

def findConstructor (idx : TypeIndex) (t : JavaType) (signature : String) :
    Except IndexError Outcome := do
  let declared ← idx.constructors t
  match (availableConstructors t declared).filter (·.hasSignature signature) with
  | []  => return .unresolvedMethod t
  | [m] => return .resolvedConstructor t m
  | ms  => return .ambiguous t ms

end TypeIndex

end Jsni

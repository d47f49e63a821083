import Jsni.Java.Unit
import Jsni.Problem.Finding
import Jsni.Resolution.Basic

/-!
# Validation

Validates the blocks of source units: finds their references, resolves each and collects what came
of it. A failure of the index abandons the unit.
-/

namespace Jsni

/-! ## Results -/

structure ValidationResult where
  path : Path
  references : List Reference := []
  problems : List Problem := []
  /-- The types that references name, in the order first seen, each once. -/
  typeDependencies : List String := []
deriving DecidableEq, Repr, Inhabited

namespace ValidationResult

def addReferences (r : ValidationResult) (references : List Reference) : ValidationResult :=
  { r with references := r.references ++ references }

def addProblems (r : ValidationResult) (problems : List Problem) : ValidationResult :=
  { r with problems := r.problems ++ problems }

def addProblem (r : ValidationResult) (problem : Option Problem) : ValidationResult :=
  r.addProblems problem.toList

def addDependency (r : ValidationResult) (name : String) : ValidationResult :=
  if name ∈ r.typeDependencies then r
  else { r with typeDependencies := r.typeDependencies ++ [name] }

def markers (r : ValidationResult) : List Marker :=
  r.problems.map Problem.toMarker

def hasErrors (r : ValidationResult) : Bool :=
  r.problems.any (·.severity = .error)

def isEmpty (r : ValidationResult) : Bool :=
  r.references.isEmpty && r.problems.isEmpty && r.typeDependencies.isEmpty

/-- Add what one finding contributes. -/
def addFinding (s : Severities) (r : ValidationResult) (f : Finding) : ValidationResult :=
  let r := (f.dependency?.elim r r.addDependency).addProblem (f.problem? s)
  r.addReferences f.reference?.toList

def ofFindings (s : Severities) (path : Path) (findings : List Finding) : ValidationResult :=
  findings.foldl (addFinding s) { path }

end ValidationResult

/-! ## Units -/

namespace TypeIndex

def findToken (idx : TypeIndex) (context : ImportContext) : Token → Except IndexError Finding
  | .malformed m => .ok (.malformed m)
  | .reference r => (idx.resolve context r).map (.resolved r)

/-- The findings of a block. Nothing is looked for in the body of an unterminated one. -/
def findBlock (idx : TypeIndex) (context : ImportContext) (b : Block) :
    Except IndexError (List Finding) := do
  let notNative := if b.isNative then [] else [.notNative b]
  if b.terminated then
    let found ← (scan b.body b.bodyOffset b.owner).mapM (idx.findToken context)
    return notNative ++ found
  else return notNative ++ [.unterminated b]

/-- The findings of all blocks of a unit, in order. -/
def findUnit (idx : TypeIndex) (u : SourceUnit) : Except IndexError (List Finding) := do
  return (← u.blocks.mapM fun b => idx.findBlock (u.context b) b).flatten

/-- Validate a unit. -/
def validate (idx : TypeIndex) (s : Severities) (u : SourceUnit) :
    Except IndexError ValidationResult :=
  (idx.findUnit u).map (.ofFindings s u.path)

/-- Validate a unit; if the index fails, the result is empty. -/
def validateOrSkip (idx : TypeIndex) (s : Severities) (u : SourceUnit) : ValidationResult :=
  match idx.validate s u with
  | .ok r    => r
  | .error _ => { path := u.path }

/-- Validate units, each on its own. -/
def validateAll (idx : TypeIndex) (s : Severities) (us : List SourceUnit) :
    List ValidationResult :=
  us.map (idx.validateOrSkip s)

end TypeIndex

end Jsni

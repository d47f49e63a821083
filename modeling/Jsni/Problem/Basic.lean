/-!
# Problems

The five kinds of problem, their fixed texts, and problems at a place in a source. A marker is what
an editor shows of a problem.
-/

namespace Jsni

inductive Severity where
  | error
  | warning
  | ignore
deriving DecidableEq, Repr, Inhabited

namespace Severity

def all : List Severity :=
  [error, warning, ignore]

def keyword : Severity → String
  | error   => "ERROR"
  | warning => "WARNING"
  | ignore  => "IGNORE"

def ofKeyword? (keyword : String) : Option Severity :=
  all.find? (·.keyword == keyword)

end Severity

/-! ## Kinds -/

inductive ProblemKind where
  | parseError
  | unresolvedType
  | unresolvedMethod
  | unresolvedField
  | ambiguous
deriving DecidableEq, Repr, Inhabited

namespace ProblemKind

def all : List ProblemKind :=
  [parseError, unresolvedType, unresolvedMethod, unresolvedField, ambiguous]

/-- The number that markers carry. -/
def id : ProblemKind → Nat
  | parseError       => 201
  | unresolvedType   => 202
  | unresolvedMethod => 203
  | unresolvedField  => 204
  | ambiguous        => 205

/-- The name by which a severity is set. -/
def key : ProblemKind → String
  | parseError       => "JSNI_PARSE_ERROR"
  | unresolvedType   => "JSNI_JAVA_REF_UNRESOLVED_TYPE"
  | unresolvedMethod => "JSNI_JAVA_REF_UNRESOLVED_METHOD"
  | unresolvedField  => "JSNI_JAVA_REF_UNRESOLVED_FIELD"
  | ambiguous        => "JSNI_JAVA_REF_AMBIGUOUS"

/-- The message, with a number in braces for each argument. -/
def template : ProblemKind → String
  | parseError       => "JSNI parse error: \x7b0\x7d"
  | unresolvedType   => "Referencing class '\x7b0\x7d': unable to resolve class"
  | unresolvedMethod => "Referencing method '\x7b0\x7d.\x7b1\x7d': unable to resolve method"
  | unresolvedField  => "Referencing field '\x7b0\x7d.\x7b1\x7d': unable to resolve field"
  | ambiguous        =>
    "Referencing method '\x7b0\x7d.\x7b1\x7d': reference is ambiguous, \x7b2\x7d overloads match"

def defaultSeverity : ProblemKind → Severity
  | parseError => .warning
  | _          => .error

def ofKey? (key : String) : Option ProblemKind :=
  all.find? (·.key == key)

def ofId? (id : Nat) : Option ProblemKind :=
  all.find? (·.id == id)

@[simp] theorem mem_all (k : ProblemKind) : k ∈ all := by cases k <;> decide

@[simp] theorem ofKey?_key (k : ProblemKind) : ofKey? k.key = some k := by cases k <;> rfl

theorem ofKey?_eq_some_iff {key : String} {k : ProblemKind} :
    ofKey? key = some k ↔ key = k.key := by
  constructor
  · intro h
    exact (beq_iff_eq.1 (List.find?_some h :)).symm
  · rintro rfl
    exact ofKey?_key k

end ProblemKind

/-! ## Messages -/

/-- The placeholder of an argument. -/
def placeholder (i : Nat) : List Char :=
  '\x7b' :: (toString i).toList ++ ['\x7d']

/-- Replace each occurrence of a text, from left to right. -/
def replaceAll (old new : List Char) (cs : List Char) : List Char :=
  match cs with
  | []      => []
  | c :: cs =>
    if old ≠ [] ∧ old.isPrefixOf (c :: cs) then
      new ++ replaceAll old new (cs.drop (old.length - 1))
    else c :: replaceAll old new cs
termination_by cs.length
decreasing_by
  all_goals simp only [List.length_cons, List.length_drop]
  · omega
  · omega

/-- Fill the placeholders numbered from `i` on, one argument after the other. What an argument
brings in is filled by those after it. -/
def fillFrom (i : Nat) (args : List String) (cs : List Char) : List Char :=
  match args with
  | []          => cs
  | arg :: args => fillFrom (i + 1) args (replaceAll (placeholder i) arg.toList cs)

def ProblemKind.render (k : ProblemKind) (args : List String) : String :=
  .ofList (fillFrom 0 args k.template.toList)

/-! ## Problems and markers -/

structure Problem where
  kind : ProblemKind
  severity : Severity
  offset : Nat
  length : Nat
  args : List String
  /-- Types whose change calls for another look at the place. -/
  typeDependencies : List String := []
deriving DecidableEq, Repr, Inhabited

namespace Problem

def addDependency (p : Problem) (typeName : String) : Problem :=
  if typeName ∈ p.typeDependencies then p
  else { p with typeDependencies := p.typeDependencies ++ [typeName] }

def message (p : Problem) : String :=
  p.kind.render p.args

def display (p : Problem) : String :=
  p.severity.keyword ++ " [" ++ p.kind.key ++ "]: " ++ p.message

end Problem

structure Marker where
  id : Nat
  key : String
  severity : Severity
  message : String
  offset : Nat
  length : Nat
deriving DecidableEq, Repr, Inhabited

/-- The type that all markers share. -/
def Marker.type : String :=
  "jsniscope.jsniProblemMarker"

def Problem.toMarker (p : Problem) : Marker where
  id := p.kind.id
  key := p.kind.key
  severity := p.severity
  message := p.message
  offset := p.offset
  length := p.length

end Jsni

import Jsni.Problem.Basic

/-!
# Severities

Each kind of problem has a severity, the default one unless it is overridden. Problems of an
ignored kind are not reported.
-/

namespace Jsni

structure Severities where
  of : ProblemKind → Severity

namespace Severities

def default : Severities :=
  ⟨ProblemKind.defaultSeverity⟩

def override (s : Severities) (kind : ProblemKind) (severity : Severity) : Severities :=
  ⟨fun k => if k = kind then severity else s.of k⟩

/-- The later of two overrides of a kind counts. -/
def overrideAll (s : Severities) (overrides : List (ProblemKind × Severity)) : Severities :=
  overrides.foldl (fun s o => s.override o.1 o.2) s

/-- Overrides by key, or the first key that no kind of problem has. -/
def kindsOfKeys : List (String × Severity) → Except String (List (ProblemKind × Severity))
  | []                       => .ok []
  | (key, severity) :: pairs =>
    match ProblemKind.ofKey? key with
    | none   => .error key
    | some k => (kindsOfKeys pairs).map ((k, severity) :: ·)

def ofKeys (pairs : List (String × Severity)) : Except String Severities :=
  (kindsOfKeys pairs).map default.overrideAll

/-- A problem of the configured severity, unless its kind is ignored. -/
def report (s : Severities) (kind : ProblemKind) (offset length : Nat) (args : List String)
    (typeDependencies : List String := []) : Option Problem :=
  if s.of kind = .ignore then none
  else some ⟨kind, s.of kind, offset, length, args, typeDependencies⟩

end Severities

end Jsni

import Jsni.Java.Block
import Jsni.Outcome
import Jsni.Problem.Severities
import Jsni.Reference.Token

/-!
# Findings

What validation finds in a source does not depend on severities. These decide only which findings
are reported as problems, and how gravely.
-/

namespace Jsni

inductive Finding where
  /-- A block at a method that is not native. -/
  | notNative (b : Block)
  /-- A block without its closing. -/
  | unterminated (b : Block)
  | malformed (m : MalformedReference)
  | resolved (r : Reference) (o : Outcome)
deriving DecidableEq, Repr

namespace Severities

def reportParseError (s : Severities) (offset length : Nat) (detail : String) : Option Problem :=
  s.report .parseError offset length [detail]

def reportMalformed (s : Severities) (m : MalformedReference) : Option Problem :=
  s.reportParseError m.offset m.length (m.reason.message ++ " in '" ++ m.text ++ "'")

/-- The problem of a reference that did not resolve. It depends on the type that the class name
stands for. -/
def reportOutcome (s : Severities) (r : Reference) (o : Outcome) : Option Problem :=
  let report (kind : ProblemKind) (args : List String) :=
    s.report kind r.offset r.length args (o.owner?.toList.map JavaType.name)
  match o with
  | .unresolvedType         => report .unresolvedType [r.className]
  | .unresolvedMethod owner => report .unresolvedMethod [owner.name, r.memberName]
  | .unresolvedField owner  => report .unresolvedField [owner.name, r.memberName]
  | .ambiguous owner ms     => report .ambiguous [owner.name, r.memberName, toString ms.length]
  | _                       => none

end Severities

namespace Finding

def problem? (s : Severities) : Finding → Option Problem
  | notNative b    =>
    s.reportParseError b.offset b.length ("JSNI block on non-native method '" ++ b.method ++ "'")
  | unterminated b =>
    s.reportParseError b.offset b.length
      ("unterminated JSNI block, expected '" ++ .ofList Block.closing ++ "'")
  | malformed m    => s.reportMalformed m
  | resolved r o   => s.reportOutcome r o

def reference? : Finding → Option Reference
  | resolved r _ => some r
  | _            => none

/-- The type that a reference depends on. -/
def dependency? : Finding → Option String
  | resolved _ o => o.owner?.map JavaType.name
  | _            => none

end Finding

end Jsni

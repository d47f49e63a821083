import Jsni.Text.Position
import Jsni.Reference.Basic
import Jsni.Reference.Identifier
import Jsni.Reference.Parenthesis

/-!
# Finding references

`scan` finds the references in the body of a block. An `@` that neither a class name nor `::`
follows means nothing; one that begins a reference but does not finish it is reported as malformed,
and the scan goes on after what was read of it.
-/

namespace Jsni

open Text

/-! ## Tokens -/

inductive MalformedReason where
  | emptyClassName
  | missingMemberName
  | unbalancedParentheses
  | missingConstructorSignature
deriving DecidableEq, Repr, Inhabited

def MalformedReason.message : MalformedReason → String
  | emptyClassName              => "expected a class name after '@'"
  | missingMemberName           => "expected a member name after '::'"
  | unbalancedParentheses       => "unbalanced parentheses in parameter signature"
  | missingConstructorSignature => "constructor reference requires a parameter signature"

/-- A reference that was begun but not finished. -/
structure MalformedReference where
  offset : Nat
  length : Nat
  text : String
  reason : MalformedReason
deriving DecidableEq, Repr, Inhabited

inductive Token where
  | reference (r : Reference)
  | malformed (m : MalformedReference)
deriving DecidableEq, Repr, Inhabited

namespace Token

def offset : Token → Nat
  | reference r => r.offset
  | malformed m => m.offset

def length : Token → Nat
  | reference r => r.length
  | malformed m => m.length

def text : Token → String
  | reference r => r.text
  | malformed m => m.text

def reference? : Token → Option Reference
  | reference r => some r
  | malformed _ => none

end Token

/-! ## What stands after an `@` -/

/-- What is read after an `@`. -/
inductive Reading where
  | classOnly (className : List Char)
  | field (className member : List Char)
  /-- A method, or a constructor if the member is `new`. -/
  | call (className member signature : List Char)
  | malformed (reason : MalformedReason) (read : List Char)

namespace Reading

/-- The text that was read. -/
def chars : Reading → List Char
  | classOnly className             => className
  | field className member          => className ++ ':' :: ':' :: member
  | call className member signature =>
    className ++ ':' :: ':' :: member ++ '(' :: signature ++ [')']
  | malformed _ read                => read

def constructorName : List Char :=
  ['n', 'e', 'w']

/-- The token of a reading whose `@` stands at `offset`. -/
def toToken (owner : String) (offset : Nat) (r : Reading) : Token :=
  let length := byteLength ('@' :: r.chars)
  match r with
  | classOnly className =>
    .reference ⟨offset, length, .ofList className, "", .classOnly, "", owner⟩
  | field className member =>
    .reference ⟨offset, length, .ofList className, .ofList member, .field, "", owner⟩
  | call className member signature =>
    let kind := if member = constructorName then .constructor else .method
    .reference
      ⟨offset, length, .ofList className, .ofList member, kind, .ofList signature, owner⟩
  | malformed reason read =>
    .malformed ⟨offset, length, .ofList ('@' :: read), reason⟩

end Reading

/-- Read the member of a reference, from after its `::`. -/
def readMember (className cs : List Char) : Reading × List Char :=
  match spanIdentifier cs with
  | ([], rest)         => (.malformed .missingMemberName (className ++ [':', ':']), rest)
  | (member, '(' :: r) =>
    match spanClosing 0 r with
    | some (signature, rest) => (.call className member signature, rest)
    | none                   =>
      (.malformed .unbalancedParentheses (className ++ ':' :: ':' :: member ++ ['(']), r)
  | (member, rest)     =>
    if member = Reading.constructorName then
      (.malformed .missingConstructorSignature (className ++ ':' :: ':' :: member), rest)
    else (.field className member, rest)

/-- Read a reference from after its `@`, if one begins there. -/
def readReference (cs : List Char) : Option (Reading × List Char) :=
  match spanQualifiedName cs with
  | ([], ':' :: ':' :: r)        =>
    some (.malformed .emptyClassName (':' :: ':' :: (spanIdentifier r).1), (spanIdentifier r).2)
  | ([], _)                      => none
  | (className, ':' :: ':' :: r) => some (readMember className r)
  | (className, rest)            => some (.classOnly className, rest)

theorem readMember_append (className cs : List Char) :
    (readMember className cs).1.chars ++ (readMember className cs).2
      = className ++ ':' :: ':' :: cs := by
  have happend := spanIdentifier_append cs
  unfold readMember
  split
  · rename_i heq
    simp only [heq, List.nil_append] at happend
    simp [Reading.chars, happend]
  · rename_i heq
    simp only [heq] at happend
    split
    · rename_i hclose
      simp [Reading.chars, append_of_spanClosing hclose, ← happend]
    · simp [Reading.chars, ← happend]
  · rename_i heq
    simp only [heq] at happend
    split <;> simp [Reading.chars, ← happend]

theorem readReference_append {cs rest : List Char} {r : Reading}
    (h : readReference cs = some (r, rest)) : r.chars ++ rest = cs := by
  have happend := spanQualifiedName_append cs
  unfold readReference at h
  split at h
  · rename_i s heq
    simp only [heq, List.nil_append] at happend
    simp only [Option.some.injEq, Prod.mk.injEq] at h
    obtain ⟨rfl, rfl⟩ := h
    simp [Reading.chars, spanIdentifier_append, ← happend]
  · cases h
  · rename_i heq
    simp only [heq] at happend
    simp only [Option.some.injEq] at h
    rw [← happend, ← readMember_append, h]
  · rename_i heq
    simp only [heq] at happend
    cases h
    simp [Reading.chars, happend]

theorem readReference_length_le {cs rest : List Char} {r : Reading}
    (h : readReference cs = some (r, rest)) : rest.length ≤ cs.length := by
  rw [← readReference_append h, List.length_append]
  omega

/-! ## Scanning -/

/-- The tokens of a text whose first byte has the given offset. -/
def scanChars (owner : String) (offset : Nat) (cs : List Char) : List Token :=
  match cs with
  | []      => []
  | c :: cs =>
    if c = '@' then
      match _h : readReference cs with
      | none           => scanChars owner (offset + 1) cs
      | some (r, rest) =>
        r.toToken owner offset
          :: scanChars owner (offset + byteLength ('@' :: r.chars)) rest
    else scanChars owner (offset + c.utf8Size) cs
termination_by cs.length
decreasing_by
  all_goals simp only [List.length_cons]
  · omega
  · have := readReference_length_le _h
    omega
  · omega

/-- The tokens of a block's body, in order. -/
def scan (body : String) (offset : Nat) (owner : String) : List Token :=
  scanChars owner offset body.toList

/-- The references of a block's body, in order, without malformed ones. -/
def references (body : String) (offset : Nat) (owner : String) : List Reference :=
  (scan body offset owner).filterMap Token.reference?

end Jsni

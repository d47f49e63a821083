import Jsni.Erasure.Basic
import Jsni.Text.Blank

/-!
# Source spelling of types

`int`, `java.lang.String[]`, `java.util.Map$Entry`: what is not a primitive keyword is the binary
name of a class. White space around a name and around each `[]` does not count.
-/

namespace Jsni.ErasedType

open Text

/-- The text before a final `[]`. -/
def elementSpelling? (cs : List Char) : Option (List Char) :=
  match cs.reverse with
  | ']' :: '[' :: rest => some rest.reverse
  | _                  => none

theorem elementSpelling?_length_lt {cs element : List Char}
    (h : elementSpelling? cs = some element) : element.length < cs.length := by
  unfold elementSpelling? at h
  split at h
  · rename_i rest heq
    simp only [Option.some.injEq] at h
    have := congrArg List.length heq
    simp only [List.length_reverse, List.length_cons] at this
    simp only [← h, List.length_reverse]
    omega
  · simp at h

def ofSpellingChars (cs : List Char) : ErasedType :=
  match _h : elementSpelling? (trim cs) with
  | some element => array (ofSpellingChars element)
  | none =>
    let name := String.ofList (trim cs)
    match Primitive.ofKeyword? name with
    | some p => primitive p
    | none   => named name
termination_by cs.length
decreasing_by exact Nat.lt_of_lt_of_le (elementSpelling?_length_lt _h) (trim_length_le cs)

/-- The type that a source spelling names. -/
def ofSpelling (spelling : String) : ErasedType :=
  ofSpellingChars spelling.toList

end Jsni.ErasedType

import Jsni.Text.Letters

/-!
# Identifiers in references

Identifiers begin with an alphabetic character, `_` or `$`, and go on with those and numeric
characters. Qualified names join identifiers by dots; a dot that no identifier follows is left
alone.
-/

namespace Jsni

open Text

def isIdentifierStart (c : Char) : Bool :=
  isAlphabetic c || c = '_' || c = '$'

def isIdentifierPart (c : Char) : Bool :=
  isAlphanumeric c || c = '_' || c = '$'

/-- The longest identifier at the front of a text, empty if none begins there, and the rest. -/
def spanIdentifier : List Char → List Char × List Char
  | []      => ([], [])
  | c :: cs =>
    if isIdentifierStart c then
      (c :: cs.takeWhile isIdentifierPart, cs.dropWhile isIdentifierPart)
    else ([], c :: cs)

theorem spanIdentifier_append (cs : List Char) :
    (spanIdentifier cs).1 ++ (spanIdentifier cs).2 = cs := by
  unfold spanIdentifier
  split
  · rfl
  · split <;> simp [List.takeWhile_append_dropWhile]

theorem spanIdentifier_length (cs : List Char) :
    (spanIdentifier cs).1.length + (spanIdentifier cs).2.length = cs.length := by
  rw [← List.length_append, spanIdentifier_append]

/-- The further segments of a qualified name, each with its dot, and the rest. -/
def spanSegments : List Char → List Char × List Char
  | '.' :: cs =>
    if (spanIdentifier cs).1 = [] then ([], '.' :: cs)
    else
      let (more, rest) := spanSegments (spanIdentifier cs).2
      ('.' :: (spanIdentifier cs).1 ++ more, rest)
  | cs        => ([], cs)
termination_by cs => cs.length
decreasing_by
  have := spanIdentifier_length cs
  simp only [List.length_cons]
  omega

/-- The longest qualified name at the front of a text, empty if none begins there, and the rest. -/
def spanQualifiedName (cs : List Char) : List Char × List Char :=
  if (spanIdentifier cs).1 = [] then ([], cs)
  else
    let (more, rest) := spanSegments (spanIdentifier cs).2
    ((spanIdentifier cs).1 ++ more, rest)

theorem spanSegments_append (cs : List Char) :
    (spanSegments cs).1 ++ (spanSegments cs).2 = cs := by
  fun_induction spanSegments cs with
  | case1 cs h => rfl
  | case2 cs h more rest heq ih =>
    rw [heq] at ih
    simpa [ih] using spanIdentifier_append cs
  | case3 => rfl

theorem spanQualifiedName_append (cs : List Char) :
    (spanQualifiedName cs).1 ++ (spanQualifiedName cs).2 = cs := by
  unfold spanQualifiedName
  split
  · rfl
  · simpa [spanSegments_append] using spanIdentifier_append cs

end Jsni

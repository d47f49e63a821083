import Jsni.Text.Blank
import Jsni.Text.Position

/-!
# Lexemes of Java sources

A source is cut into words, literals, comments and single punctuation marks. White space stays with
the lexeme that follows it, so that the text of a stretch of source can be put together again.
-/

namespace Jsni.Java

open Text

inductive LexemeKind where
  /-- Names, keywords and numbers. -/
  | word
  /-- String literals, text blocks and character literals. -/
  | literal
  /-- A single punctuation character. -/
  | mark
  | lineComment
  | blockComment
deriving DecidableEq, Repr, Inhabited

structure Lexeme where
  kind : LexemeKind
  /-- Byte offset of the text in the source. -/
  offset : Nat
  /-- White space before the text. -/
  blank : List Char
  text : List Char
deriving DecidableEq, Repr, Inhabited

namespace Lexeme

def isComment (l : Lexeme) : Bool :=
  l.kind = .lineComment || l.kind = .blockComment

def isWord (l : Lexeme) (word : String) : Bool :=
  l.kind = .word && l.text = word.toList

def isMark (l : Lexeme) (c : Char) : Bool :=
  l.kind = .mark && l.text = [c]

/-- The text with the white space before it. -/
def chars (l : Lexeme) : List Char :=
  l.blank ++ l.text

end Lexeme

/-! ## Where lexemes end -/

def isWordChar (c : Char) : Bool :=
  c.isAlphanum || c = '_' || c = '$' || (0x80 ≤ c.toNat && ! isBlank c)

/-- The number of characters through `*/`. -/
def commentRest : List Char → Nat
  | []             => 0
  | '*' :: '/' :: _ => 2
  | _ :: cs        => commentRest cs + 1

/-- The number of characters through a closing quote that is not escaped. -/
def quotedRest (quote : Char) : List Char → Nat
  | []              => 0
  | '\\' :: _ :: cs => quotedRest quote cs + 2
  | c :: cs         => if c = quote then 1 else quotedRest quote cs + 1

/-- The number of characters through three quotes that are not escaped. -/
def textBlockRest : List Char → Nat
  | []                     => 0
  | '\\' :: _ :: cs        => textBlockRest cs + 2
  | '"' :: '"' :: '"' :: _ => 3
  | _ :: cs                => textBlockRest cs + 1

/-- The kind of the lexeme that begins with `c`, and how many of the characters after `c` belong to
it. -/
def lexemeRest (c : Char) (cs : List Char) : LexemeKind × Nat :=
  match c, cs with
  | '/', '/' :: cs        => (.lineComment, (cs.takeWhile (· ≠ '\n')).length + 1)
  | '/', '*' :: cs        => (.blockComment, commentRest cs + 1)
  | '"', '"' :: '"' :: cs => (.literal, textBlockRest cs + 2)
  | '"', cs               => (.literal, quotedRest '"' cs)
  | '\'', cs              => (.literal, quotedRest '\'' cs)
  | c, cs                 =>
    if isWordChar c then (.word, (cs.takeWhile isWordChar).length) else (.mark, 0)

/-! ## Cutting -/

/-- The lexemes of a text whose first byte has the given offset. -/
def lex (offset : Nat) (cs : List Char) : List Lexeme :=
  match _h : cs.dropWhile isBlank with
  | []        => []
  | c :: rest =>
    let blank := cs.takeWhile isBlank
    let (kind, n) := lexemeRest c rest
    let text := c :: rest.take n
    let start := offset + byteLength blank
    ⟨kind, start, blank, text⟩ :: lex (start + byteLength text) (rest.drop n)
termination_by cs.length
decreasing_by
  have hle := (List.dropWhile_sublist isBlank (l := cs)).length_le
  simp only [_h, List.length_cons] at hle
  simp only [List.length_drop]
  omega

def byteOrderMark : Char :=
  '\uFEFF'

/-- The lexemes of a source. A byte order mark at its start does not count as text, only for
offsets. -/
def lexemes (source : String) : List Lexeme :=
  match source.toList with
  | []      => []
  | c :: cs =>
    if c = byteOrderMark then lex byteOrderMark.utf8Size cs else lex 0 (c :: cs)

end Jsni.Java

/-!
# Positions in a text

Offsets and lengths are counted in bytes of the UTF-8 encoding. `lineColumn` turns an offset into
a line and a column, both counted from one, the column in characters.
-/

namespace Jsni.Text

/-- The number of bytes of a text in UTF-8. -/
def byteLength : List Char → Nat
  | [] => 0
  | c :: cs => c.utf8Size + byteLength cs

@[simp] theorem byteLength_nil : byteLength [] = 0 := rfl

@[simp] theorem byteLength_cons (c : Char) (cs : List Char) :
    byteLength (c :: cs) = c.utf8Size + byteLength cs := rfl

@[simp] theorem byteLength_append (cs ds : List Char) :
    byteLength (cs ++ ds) = byteLength cs + byteLength ds := by
  induction cs with
  | nil => simp
  | cons c cs ih => simp [ih, Nat.add_assoc]

structure LineColumn where
  line : Nat
  column : Nat
deriving DecidableEq, Repr

/-- Walk `offset` bytes from `here`. Past the end of the text the end is taken; inside a character
there is no answer. -/
def LineColumn.advance (here : LineColumn) : List Char → Nat → Option LineColumn
  | [], _ => some here
  | c :: cs, offset =>
    if offset = 0 then some here
    else if offset < c.utf8Size then none
    else if c = '\n' then advance ⟨here.line + 1, 1⟩ cs (offset - c.utf8Size)
    else advance ⟨here.line, here.column + 1⟩ cs (offset - c.utf8Size)

/-- The line and column of a byte offset, unless the offset falls inside a character. -/
def lineColumn (source : String) (offset : Nat) : Option LineColumn :=
  LineColumn.advance ⟨1, 1⟩ source.toList offset

end Jsni.Text

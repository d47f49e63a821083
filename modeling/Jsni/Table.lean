import Jsni.Text.Columns

/-!
# Tables

Plain text tables with a header, a rule below it, and columns as wide as their widest cell.
-/

namespace Jsni.Table

open Text

def spaces (n : Nat) : String :=
  .ofList (List.replicate n ' ')

/-- The widths of the columns. -/
def widths (header : List String) (rows : List (List String)) : List Nat :=
  rows.foldl (fun ws row => List.zipWith max ws (row.map columns)) (header.map columns)

def renderCell (width : Nat) (cell : String) : String :=
  " " ++ cell ++ spaces (width - columns cell) ++ " "

def renderRow (ws : List Nat) (row : List String) : String :=
  String.intercalate "|" (List.zipWith renderCell ws row)

def renderRule (ws : List Nat) : String :=
  String.intercalate "+" (ws.map fun w => .ofList (List.replicate (w + 2) '-'))

/-- The lines of the table, without a line end after the last. -/
def render (header : List String) (rows : List (List String)) : String :=
  let ws := widths header rows
  String.intercalate "\n" (renderRow ws header :: renderRule ws :: rows.map (renderRow ws))

end Jsni.Table

/-!
# JSON values

Values and their two printed forms: compact on one line, and indented by two spaces a level.
-/

namespace Jsni

inductive Json where
  | null
  | number (n : Nat)
  | string (s : String)
  | array (items : List Json)
  | object (members : List (String × Json))
deriving Repr, Inhabited

namespace Json

def hexDigit (n : Nat) : Char :=
  if n < 10 then Char.ofNat ('0'.toNat + n) else Char.ofNat ('a'.toNat + (n - 10))

/-- A character within a string. Quotes, backslashes and control characters are escaped. -/
def escape (c : Char) : List Char :=
  match c with
  | '"'    => ['\\', '"']
  | '\\'   => ['\\', '\\']
  | '\n'   => ['\\', 'n']
  | '\r'   => ['\\', 'r']
  | '\t'   => ['\\', 't']
  | '\x08' => ['\\', 'b']
  | '\x0c' => ['\\', 'f']
  | c      =>
    if c.toNat < 0x20 then ['\\', 'u', '0', '0', hexDigit (c.toNat / 16), hexDigit (c.toNat % 16)]
    else [c]

def quote (s : String) : List Char :=
  '"' :: s.toList.flatMap escape ++ ['"']

/-- The parts with a separator between each two. -/
def separated (separator : List Char) : List (List Char) → List Char
  | []      => []
  | [p]     => p
  | p :: ps => p ++ separator ++ separated separator ps

/-! ## Compact form -/

mutual

def compact : Json → List Char
  | null           => ['n', 'u', 'l', 'l']
  | number n       => (toString n).toList
  | string s       => quote s
  | array items    => '[' :: separated [','] (compactItems items) ++ [']']
  | object members => '\x7b' :: separated [','] (compactMembers members) ++ ['\x7d']

def compactItems : List Json → List (List Char)
  | []      => []
  | j :: js => compact j :: compactItems js

def compactMembers : List (String × Json) → List (List Char)
  | []           => []
  | (k, j) :: ms => (quote k ++ ':' :: compact j) :: compactMembers ms

end

/-- The value on one line, without white space. -/
def render (j : Json) : String :=
  .ofList j.compact

/-! ## Indented form -/

def newline (indent : Nat) : List Char :=
  '\n' :: List.replicate (2 * indent) ' '

/-- Parts in brackets, each on a line of its own. No part leaves nothing between the brackets. -/
def block (indent : Nat) (opening closing : Char) (parts : List (List Char)) : List Char :=
  if parts = [] then [opening, closing]
  else
    opening :: newline (indent + 1) ++ separated (',' :: newline (indent + 1)) parts
      ++ newline indent ++ [closing]

mutual

def indented (indent : Nat) : Json → List Char
  | null           => ['n', 'u', 'l', 'l']
  | number n       => (toString n).toList
  | string s       => quote s
  | array items    => block indent '[' ']' (indentedItems (indent + 1) items)
  | object members => block indent '\x7b' '\x7d' (indentedMembers (indent + 1) members)

def indentedItems (indent : Nat) : List Json → List (List Char)
  | []      => []
  | j :: js => indented indent j :: indentedItems indent js

def indentedMembers (indent : Nat) : List (String × Json) → List (List Char)
  | []           => []
  | (k, j) :: ms =>
    (quote k ++ ':' :: ' ' :: indented indent j) :: indentedMembers indent ms

end

/-- The value over several lines. -/
def renderPretty (j : Json) : String :=
  .ofList (j.indented 0)

end Json

end Jsni

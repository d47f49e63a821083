import Jsni.Json.Draft
import Jsni.Text.Blank
import Jsni.Text.Columns

/-!
# Errors of readers

What a reader says of a JSON text that it cannot use: that the text is flawed, or what about its
values does not fit.
-/

namespace Jsni.Json

open Text

/-- A value that does not fit. -/
inductive Mismatch where
  | invalidType (found expected : String)
  | unknownVariant (name : String) (known : List String)
  | duplicateField (name : String)
  | missingField (name : String)
  | invalidLength (length : Nat) (expected : String)
  | other (message : String)
deriving DecidableEq, Repr

inductive ReadError where
  | flaw (f : Flaw)
  | data (m : Mismatch)
deriving DecidableEq, Repr

/-! ## Messages -/

def hexDigits (n : Nat) : List Char :=
  (Nat.toDigits 16 n)

/-- A character in a quoted text. Characters that cannot be seen are given by their code. -/
def quoteChar (c : Char) : List Char :=
  match c with
  | '"'  => ['\\', '"']
  | '\\' => ['\\', '\\']
  | '\n' => ['\\', 'n']
  | '\r' => ['\\', 'r']
  | '\t' => ['\\', 't']
  | '\x00' => ['\\', '0']
  | c    =>
    let invisible := c ≠ ' ' &&
      (c.toNat < 0x20 || (0x7F ≤ c.toNat && c.toNat < 0xA0) || isBlank c || columnsOfChar c = 0)
    if invisible then '\\' :: 'u' :: '\x7b' :: hexDigits c.toNat ++ ['\x7d'] else [c]

def quoted (s : String) : String :=
  .ofList ('"' :: s.toList.flatMap quoteChar ++ ['"'])

def backquoted (s : String) : String :=
  "`" ++ s ++ "`"

/-- The names to choose from. -/
def oneOf : List String → String
  | []     => "there are no variants"
  | [a]    => "expected " ++ backquoted a
  | [a, b] => "expected " ++ backquoted a ++ " or " ++ backquoted b
  | names  => "expected one of " ++ String.intercalate ", " (names.map backquoted)

def Mismatch.message : Mismatch → String
  | invalidType found expected    => "invalid type: " ++ found ++ ", expected " ++ expected
  | unknownVariant name known     => "unknown variant " ++ backquoted name ++ ", " ++ oneOf known
  | duplicateField name           => "duplicate field " ++ backquoted name
  | missingField name             => "missing field " ++ backquoted name
  | invalidLength length expected =>
    "invalid length " ++ toString length ++ ", expected " ++ expected
  | other message                 => message

def Flaw.message : Flaw → String
  | ended     => "the text ends too early"
  | malformed => "the text is malformed"

def ReadError.message : ReadError → String
  | flaw f => f.message
  | data m => m.message

/-- How messages call a value, or the flaw that keeps it from being one. -/
def Draft.describe : Draft → Except Flaw String
  | null             => .ok "null"
  | bool true        => .ok "boolean `true`"
  | bool false       => .ok "boolean `false`"
  | number n         => .ok n.describe
  | string (.ok s)   => .ok ("string " ++ quoted s)
  | string (.error f) => .error f
  | array ..         => .ok "sequence"
  | object ..        => .ok "map"
  | broken b         => .error b.wanted

/-- The error of a value of another kind than expected. -/
def Draft.unexpected (d : Draft) (expected : String) : ReadError :=
  match d.describe with
  | .ok found => .data (.invalidType found expected)
  | .error f  => .flaw f

end Jsni.Json

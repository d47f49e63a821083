import Jsni.Json.Numeral

/-!
# Drafts of JSON values

A draft is what a JSON text says up to its first flaw. It keeps the place of the flaw, so that a
reader who goes through it from left to right meets the first thing that is wrong, be it a flaw of
the text or a value of the wrong shape.
-/

namespace Jsni.Json

/-- What is wrong with a text. -/
inductive Flaw where
  /-- The text ends too early. -/
  | ended
  | malformed
deriving DecidableEq, Repr

/-- A flaw inside a value. A reader who passes over the value may see another one than a reader who
wants it. -/
structure Break where
  wanted : Flaw
  passed : Flaw
deriving DecidableEq, Repr

def Break.same (f : Flaw) : Break :=
  ⟨f, f⟩

mutual

inductive Draft where
  | null
  | bool (b : Bool)
  | number (n : Numeral)
  /-- A string, unless its escapes spell no text. -/
  | string (text : Except Flaw String)
  | array (items : List Draft) (stop : Option Flaw)
  | object (members : List (Except Flaw String × Draft)) (stop : Option Stop)
  /-- Here a value should be. -/
  | broken (b : Break)

/-- Where an object breaks off. -/
inductive Stop where
  /-- Where a comma or the closing brace should be. -/
  | separator (f : Flaw)
  /-- Where a key should be. The value found in its place, and whether it would be the first key. -/
  | key (b : Break) (found : Option Draft) (first : Bool)

end

instance : Inhabited Draft := ⟨.null⟩

/-- A text: its value, and whether more than white space follows. -/
structure Document where
  value : Draft
  trailing : Bool

mutual

/-- The flaw that a reader meets who passes over a value. -/
def Draft.flaw? : Draft → Option Flaw
  | .array items stop    => flawOfItems? items <|> stop
  | .object members stop =>
    flawOfMembers? members <|>
      match stop with
      | none                => none
      | some (.separator f) => some f
      | some (.key b _ _)   => some b.passed
  | .broken b            => some b.passed
  | _                    => none

def flawOfItems? : List Draft → Option Flaw
  | []      => none
  | d :: ds => d.flaw? <|> flawOfItems? ds

def flawOfMembers? : List (Except Flaw String × Draft) → Option Flaw
  | []           => none
  | (_, d) :: ms => d.flaw? <|> flawOfMembers? ms

end

end Jsni.Json

import Jsni.Text.Blank
import Jsni.Text.Letters

/-!
# Search queries

A query splits into terms. White space separates words, also within a quoted phrase, and a quote
separates terms. A wildcard belongs to the term it follows and ends it, so that `test*1` gives
`test*` and `1`. Other punctuation stays where it is. A term has at least one alphanumeric
character.
-/

namespace Jsni.Query

open Text

structure Term where
  text : String
  /-- The term stands in a quoted phrase. -/
  quoted : Bool
  /-- The number of the word that the term comes from. -/
  position : Nat
deriving DecidableEq, Repr, Inhabited

def isWildcard (c : Char) : Bool :=
  c = '*' || c = '?'

def isQuote (c : Char) : Bool :=
  c = '"'

/-- The state of splitting a query, between two of its characters. -/
structure Splitter where
  terms : List Term := []
  /-- The characters of the pending term. -/
  pending : List Char := []
  hasAlphanumeric : Bool := false
  /-- A wildcard after an alphanumeric character: the next alphanumeric one begins a new term. -/
  closed : Bool := false
  word : Nat := 0
  inWord : Bool := false
  quoted : Bool := false
  /-- The quotes that are still there to be paired. -/
  openQuotes : Nat
deriving DecidableEq, Repr

namespace Splitter

/-- End the pending term. -/
def flush (s : Splitter) : Splitter :=
  { s with
    terms := if s.hasAlphanumeric then s.terms ++ [⟨.ofList s.pending, s.quoted, s.word⟩]
      else s.terms
    pending := []
    hasAlphanumeric := false
    closed := false }

def push (s : Splitter) (c : Char) : Splitter :=
  { s with pending := s.pending ++ [c] }

def endWord (s : Splitter) : Splitter :=
  if s.inWord then { s with word := s.word + 1, inWord := false } else s

/-- Close the phrase, or open one if its closing quote is still to come. -/
def quote (s : Splitter) : Splitter :=
  if s.quoted then { s with quoted := false }
  else if 0 < s.openQuotes then { s with quoted := true, openQuotes := s.openQuotes - 2 }
  else s

def step (s : Splitter) (c : Char) : Splitter :=
  if isBlank c then s.flush.endWord
  else
    let s := { s with inWord := true }
    if isQuote c then s.flush.quote
    else if isAlphanumeric c then
      let s := if s.closed then s.flush else s
      { s.push c with hasAlphanumeric := true }
    else if isWildcard c then { s.push c with closed := s.hasAlphanumeric }
    else s.push c

end Splitter

/-- The quotes of a text that can be paired: all, or all but the last. -/
def pairedQuotes (cs : List Char) : Nat :=
  cs.countP isQuote / 2 * 2

def termsOfChars (cs : List Char) : List Term :=
  (cs.foldl Splitter.step { openQuotes := pairedQuotes cs }).flush.terms

/-- The terms of a query, in order. -/
def terms (query : String) : List Term :=
  termsOfChars query.toList

end Jsni.Query

import Jsni.Json.Mismatch
import Jsni.Json.Reader

/-!
# Decoding drafts

Decoders turn drafts into values of other types. Each goes through its draft from left to right, so
that the first thing wrong is the one reported.
-/

namespace Jsni.Json

abbrev Decoder (α : Type) := Draft → Except ReadError α

namespace Decode

def flawless (f : Option Flaw) : Except ReadError Unit :=
  match f with
  | none   => .ok ()
  | some f => .error (.flaw f)

def text : Except Flaw String → Except ReadError String
  | .ok s    => .ok s
  | .error f => .error (.flaw f)

def string : Decoder String
  | .string s => text s
  | d         => .error (d.unexpected "a string")

def option (decode : Decoder α) : Decoder (Option α)
  | .null => .ok none
  | d     => (decode d).map some

def list (decode : Decoder α) : Decoder (List α)
  | .array items stop => do
    let as ← items.mapM decode
    flawless stop
    return as
  | d => .error (d.unexpected "a sequence")

/-- Check that an object does not break off after its members. -/
def noStop : Option Stop → Except ReadError Unit
  | none                => .ok ()
  | some (.separator f) => .error (.flaw f)
  | some (.key b _ _)   => .error (.flaw b.wanted)

/-- The pairs of an object, in order, repeated keys included. -/
def pairs (decode : Decoder α) : Decoder (List (String × α))
  | .object members stop => do
    let ps ← members.mapM fun (key, d) => return (← text key, ← decode d)
    noStop stop
    return ps
  | d => .error (d.unexpected "a map")

/-! ## Variants -/

def variantName (ofName? : String → Option α) (known : List String) (name : Except Flaw String) :
    Except ReadError α := do
  let name ← text name
  match ofName? name with
  | some a => return a
  | none   => throw (.data (.unknownVariant name known))

/-- One of several named values: its name, or an object with the name as its only key and no
value. -/
def variant (ofName? : String → Option α) (known : List String) : Decoder α
  | .string name => variantName ofName? known name
  | .object ((name, content) :: more) stop => do
    let a ← variantName ofName? known name
    match content with
    | .null => pure ()
    | d     => throw (d.unexpected "unit")
    match more, stop with
    | [], none                => return a
    | [], some (.separator f) => throw (.flaw f)
    | _,  _                   => throw (.flaw .malformed)
  | .object [] (some (.key _ (some found) _)) => .error (found.unexpected "variant identifier")
  | .object [] (some (.key b none _))         => .error (.flaw b.wanted)
  | .broken b                                 => .error (.flaw b.wanted)
  | _                                         => .error (.flaw .malformed)

/-! ## Records -/

/-- Decode the value of a field that must not be there yet. -/
def once (name : String) (present : Option α) (decode : Decoder α) (d : Draft) :
    Except ReadError (Option α) :=
  match present with
  | some _ => .error (.data (.duplicateField name))
  | none   => (decode d).map some

/-- Pass over the value of a field that nobody knows. -/
def ignored (a : α) (d : Draft) : Except ReadError α := do
  flawless d.flaw?
  return a

def required (name : String) : Option α → Except ReadError α
  | some a => .ok a
  | none   => .error (.data (.missingField name))

/-- The items of an array that stands for a record, from the next field on. -/
structure Cursor where
  items : List Draft
  stop : Option Flaw

abbrev FieldReader := StateT Cursor (Except ReadError)

/-- Decode the next field, if there is one. -/
def nextField? (decode : Decoder α) : FieldReader (Option α) := do
  let cursor ← get
  match cursor.items with
  | []         =>
    flawless cursor.stop
    return none
  | d :: items =>
    set { cursor with items }
    return some (← decode d)

/-- Decode the next field, which must be there. -/
def nextField (index : Nat) (expected : String) (decode : Decoder α) : FieldReader α := do
  match ← nextField? decode with
  | some a => return a
  | none   => throw (.data (.invalidLength index expected))

/-- No fields may be left. -/
def Cursor.finish (cursor : Cursor) : Except ReadError Unit :=
  match cursor.items with
  | []     => flawless cursor.stop
  | _ :: _ => .error (.flaw .malformed)

/-- How to read a record: what it is called, how each member of an object adds to what is known,
how that makes the record, and how the items of an array do. -/
structure RecordFormat (σ α : Type) where
  expected : String
  start : σ
  member : σ → String → Draft → Except ReadError σ
  finish : σ → Except ReadError α
  fields : FieldReader α

def record (format : RecordFormat σ α) : Decoder α
  | .object members stop => do
    let known ← members.foldlM (fun s (key, d) => do format.member s (← text key) d) format.start
    noStop stop
    format.finish known
  | .array items stop => do
    let (a, cursor) ← format.fields.run ⟨items, stop⟩
    cursor.finish
    return a
  | d => .error (d.unexpected format.expected)

end Decode

/-- Decode a whole text, which holds nothing after its value. -/
def Document.decode (decode : Decoder α) (document : Document) : Except ReadError α := do
  let a ← decode document.value
  if document.trailing then throw (.flaw .malformed) else return a

def decodeText (decode : Decoder α) (text : String) : Except ReadError α :=
  (Document.ofText text).decode decode

end Jsni.Json

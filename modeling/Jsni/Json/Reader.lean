import Jsni.Json.Symbol

/-!
# Reading JSON texts

Puts the symbols of a text together to a draft. Containers still open are kept on a stack of
frames; where the text breaks off, they are closed from the inside out.
-/

namespace Jsni.Json

/-- A container still open, with what it holds so far, back to front. -/
inductive Frame where
  | array (items : List Draft)
  /-- The key is the one whose value comes next. -/
  | object (members : List (Except Flaw String × Draft)) (key : Except Flaw String)

/-- The container, if it holds one more draft and nothing else. -/
def Frame.holding (d : Draft) : Frame → Draft
  | .array items        => .array (d :: items).reverse none
  | .object members key => .object ((key, d) :: members).reverse none

/-- What should come next. -/
inductive Awaited where
  | value
  /-- The first item of an array, or its end. -/
  | item
  /-- A key of an object that has the given members, back to front, or its end if it is empty. -/
  | key (members : List (Except Flaw String × Draft))
  | colon
  /-- A comma, or the end of the innermost container. -/
  | separator
  | nothing (result : Draft)

structure Assembly where
  frames : List Frame
  awaited : Awaited

namespace Assembly

def start : Assembly :=
  ⟨[], .value⟩

/-- The draft of a text that breaks off inside the given frames at the given draft. -/
def breakOff (d : Draft) (frames : List Frame) : Draft :=
  frames.foldl Frame.holding d

/-- A value is complete. -/
def complete (frames : List Frame) (d : Draft) : Assembly :=
  match frames with
  | []                        => ⟨[], .nothing d⟩
  | .array items :: fs        => ⟨.array (d :: items) :: fs, .separator⟩
  | .object members key :: fs =>
    ⟨.object ((key, d) :: members) key :: fs, .separator⟩

/-- The draft if a comma or the end of a container is missing. -/
def withoutSeparator (f : Flaw) : List Frame → Draft
  | []                      => .broken (.same f)
  | .array items :: fs      => breakOff (.array items.reverse (some f)) fs
  | .object members _ :: fs => breakOff (.object members.reverse (some (.separator f))) fs

def withoutKey (frames : List Frame) (members : List (Except Flaw String × Draft)) (b : Break)
    (found : Option Draft) : Draft :=
  breakOff (.object members.reverse (some (.key b found members.isEmpty))) frames

/-- Read a symbol where a value should be. -/
def readValue (frames : List Frame) (s : Symbol) : Except Draft Assembly :=
  match s with
  | .string text    => .ok (complete frames (.string text))
  | .scalar d       => .ok (complete frames d)
  | .brokenString b => .error (breakOff (.broken b) frames)
  | .brokenScalar b => .error (breakOff (.broken b) frames)
  | .mark c         =>
    if c = '[' then .ok ⟨.array [] :: frames, .item⟩
    else if c = '\x7b' then .ok ⟨frames, .key []⟩
    else .error (breakOff (.broken (.same .malformed)) frames)

/-- Read a symbol where a key should be. -/
def readKey (frames : List Frame) (members : List (Except Flaw String × Draft)) (s : Symbol) :
    Except Draft Assembly :=
  let missing (b : Break) (found : Option Draft) := .error (withoutKey frames members b found)
  match s with
  | .string key     => .ok ⟨.object members key :: frames, .colon⟩
  | .brokenString b => missing b none
  | .scalar d       => missing (.same .malformed) (some d)
  | .brokenScalar b => missing (.same .malformed) (some (.broken b))
  | .mark c         =>
    if c = '\x7d' ∧ members.isEmpty then .ok (complete frames (.object [] none))
    else if c = '[' then missing (.same .malformed) (some (.array [] none))
    else if c = '\x7b' then missing (.same .malformed) (some (.object [] none))
    else missing (.same .malformed) none

/-- Read a symbol where a comma or the end of a container should be. -/
def readSeparator (frames : List Frame) (s : Symbol) : Except Draft Assembly :=
  match s, frames with
  | .mark ',',    .array items :: fs        => .ok ⟨.array items :: fs, .value⟩
  | .mark ']',    .array items :: fs        => .ok (complete fs (.array items.reverse none))
  | .mark ',',    .object members _ :: fs   => .ok ⟨fs, .key members⟩
  | .mark '\x7d', .object members _ :: fs   => .ok (complete fs (.object members.reverse none))
  | _,            frames                    => .error (withoutSeparator .malformed frames)

/-- Read one more symbol, or give the draft of a text that is flawed here. -/
def step (a : Assembly) (s : Symbol) : Except Draft Assembly :=
  match a.awaited with
  | .value       => readValue a.frames s
  | .item        =>
    match s, a.frames with
    | .mark ']', .array _ :: fs => .ok (complete fs (.array [] none))
    | s,         frames         => readValue frames s
  | .key members => readKey a.frames members s
  | .colon       =>
    match s with
    | .mark ':' => .ok ⟨a.frames, .value⟩
    | _         => .error (breakOff (.broken (.same .malformed)) a.frames)
  | .separator   => readSeparator a.frames s
  | .nothing d   => .ok ⟨a.frames, .nothing d⟩

/-- The draft of a text that ends here. -/
def finish (a : Assembly) : Draft :=
  match a.awaited with
  | .nothing d   => d
  | .key members => withoutKey a.frames members (.same .ended) none
  | .separator   => withoutSeparator .ended a.frames
  | _            => breakOff (.broken (.same .ended)) a.frames

def isFinished (a : Assembly) : Bool :=
  match a.awaited with
  | .nothing _ => true
  | _          => false

end Assembly

/-- Read symbols until the text ends or is flawed. -/
def assemble (a : Assembly) : List Symbol → Document
  | []      => ⟨a.finish, false⟩
  | s :: ss =>
    if a.isFinished then ⟨a.finish, true⟩
    else
      match a.step s with
      | .error d => ⟨d, false⟩
      | .ok a    => assemble a ss

/-- What a JSON text says, up to its first flaw. -/
def Document.ofText (text : String) : Document :=
  assemble .start (symbols text.toList)

end Jsni.Json

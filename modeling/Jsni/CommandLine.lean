import Jsni.Text.Raw

/-!
# Command lines

Reads the arguments of the program. Options may stand between the other arguments; after `--`
nothing is an option. The first argument that does not fit makes the whole line unusable, but a
request for the version or for help before it is granted.
-/

namespace Jsni

inductive Command where
  | check (files : List Path) (index : Path) (severities : Option Path) (json : Bool)
  | terms (query : String)
deriving DecidableEq, Repr

/-- What a command line asks for. -/
inductive Request where
  | run (verbose : Bool) (command : Command)
  | version
  | help
deriving DecidableEq, Repr

namespace CommandLine

/-! ## Arguments -/

inductive Arg where
  /-- `--`, after which nothing is an option. -/
  | escape
  /-- `--name` or `--name=value`. -/
  | long (name : RawText) (value : Option RawText)
  /-- `-abc`, several options of one letter. -/
  | short (letters : List UInt8)
  | plain (text : RawText)
deriving DecidableEq, Repr

/-- An argument that begins with `-` (the byte 0x2D) is about options. -/
def Arg.ofRaw (s : RawText) : Arg :=
  match s.bytes with
  | [0x2D, 0x2D]       => .escape
  | 0x2D :: 0x2D :: bs =>
    let equals := '='.toUInt8
    .long ⟨bs.takeWhile (· ≠ equals)⟩ (match bs.dropWhile (· ≠ equals) with
      | []         => none
      | _ :: value => some ⟨value⟩)
  | 0x2D :: b :: bs    => .short (b :: bs)
  | _                  => .plain s

/-- The end of reading a line early: a request granted at once, or `none` for a line that cannot be
used. -/
abbrev Stop := Option Request

abbrev Reader := Except Stop

def unusable : Reader α :=
  .error none

def helpNow : Reader α :=
  .error (some .help)

/-- Set a flag that must not be set yet. -/
def raise (flag : Bool) : Reader Bool :=
  if flag then unusable else .ok true

/-- The letters that stand for options: `v` sets the flag, `h` asks for help. Others may be known
too. -/
def readLetters (other : UInt8 → Reader Unit) : Bool → List UInt8 → Reader Bool
  | verbose, []      => .ok verbose
  | verbose, b :: bs => do
    if b = 'v'.toUInt8 then readLetters other (← raise verbose) bs
    else if b = 'h'.toUInt8 then helpNow
    else
      other b
      readLetters other verbose bs

/-! ## The command `check` -/

structure CheckArgs where
  files : List Path := []
  index : Option Path := none
  severities : Option Path := none
  json : Bool := false
  verbose : Bool := false
deriving DecidableEq, Repr

namespace CheckArgs

/-- A path must not be empty. -/
def path (s : RawText) : Reader Path :=
  if s = "" then unusable else .ok s

def addFile (a : CheckArgs) (s : RawText) : Reader CheckArgs := do
  return { a with files := a.files ++ [← path s] }

def addFiles (a : CheckArgs) (files : List RawText) : Reader CheckArgs :=
  files.foldlM addFile a

def setIndex (a : CheckArgs) (s : RawText) : Reader CheckArgs :=
  if a.index.isSome then unusable else return { a with index := ← path s }

def setSeverities (a : CheckArgs) (s : RawText) : Reader CheckArgs :=
  if a.severities.isSome then unusable else return { a with severities := ← path s }

/-- The option that takes a path, if the name is of one. -/
def pathOption? (name : RawText) : Option (CheckArgs → RawText → Reader CheckArgs) :=
  if name = "index" then some setIndex
  else if name = "severities" then some setSeverities
  else none

def setFlag (a : CheckArgs) (name : RawText) : Reader CheckArgs := do
  if name = "json" then return { a with json := ← raise a.json }
  else if name = "verbose" then return { a with verbose := ← raise a.verbose }
  else if name = "help" then helpNow
  else unusable

def read (a : CheckArgs) : List RawText → Reader CheckArgs
  | []        => .ok a
  | s :: rest =>
    match Arg.ofRaw s with
    | .escape          => a.addFiles rest
    | .plain file      => do (← a.addFile file).read rest
    | .short letters   => do
      let verbose ← readLetters (fun _ => unusable) a.verbose letters
      { a with verbose }.read rest
    | .long name value =>
      match pathOption? name, value, rest with
      | some set, some value, rest       => do (← set a value).read rest
      | some set, none,       next :: rest =>
        match Arg.ofRaw next with
        | .plain value => do (← set a value).read rest
        | _            => unusable
      | some _,   none,       []         => unusable
      | none,     some _,     _          => unusable
      | none,     none,       rest       => do (← a.setFlag name).read rest

def finish (a : CheckArgs) (verbose : Bool) : Reader Request :=
  match a.files, a.index with
  | _ :: _, some index =>
    .ok (.run (verbose || a.verbose) (.check a.files index a.severities a.json))
  | _, _               => unusable

end CheckArgs

/-! ## The command `terms` -/

structure TermsArgs where
  query : Option String := none
  verbose : Bool := false
deriving DecidableEq, Repr

namespace TermsArgs

/-- A query must be a text. -/
def setQuery (a : TermsArgs) (s : RawText) : Reader TermsArgs :=
  match a.query, s.text? with
  | none, some query => .ok { a with query := some query }
  | _,    _          => unusable

def setFlag (a : TermsArgs) (name : RawText) : Reader TermsArgs := do
  if name = "verbose" then return { a with verbose := ← raise a.verbose }
  else if name = "help" then helpNow
  else unusable

def read (a : TermsArgs) : List RawText → Reader TermsArgs
  | []        => .ok a
  | s :: rest =>
    match Arg.ofRaw s with
    | .escape             => rest.foldlM setQuery a
    | .plain query        => do (← a.setQuery query).read rest
    | .short letters      => do
      let verbose ← readLetters (fun _ => unusable) a.verbose letters
      { a with verbose }.read rest
    | .long name none     => do (← a.setFlag name).read rest
    | .long _    (some _) => unusable

def finish (a : TermsArgs) (verbose : Bool) : Reader Request :=
  match a.query with
  | some query => .ok (.run (verbose || a.verbose) (.terms query))
  | none       => unusable

end TermsArgs

/-! ## Lines -/

def versionNow : Reader α :=
  .error (some .version)

/-- The arguments of `help`: at most the name of a command. -/
def readHelp : List RawText → Reader Request
  | []     => helpNow
  | [name] => if name = "check" ∨ name = "terms" ∨ name = "help" then helpNow else unusable
  | _      => unusable

/-- A command with its arguments. -/
def readCommand (verbose : Bool) (name : RawText) (args : List RawText) : Reader Request := do
  if name = "check" then (← CheckArgs.read {} args).finish verbose
  else if name = "terms" then (← TermsArgs.read {} args).finish verbose
  else if name = "help" then readHelp args
  else unusable

def readArgs (verbose : Bool) : List RawText → Reader Request
  | []        => unusable
  | s :: rest =>
    match Arg.ofRaw s with
    | .escape             => unusable
    | .plain name         => readCommand verbose name rest
    | .short letters      => do
      let letter (b : UInt8) : Reader Unit := if b = 'V'.toUInt8 then versionNow else unusable
      readArgs (← readLetters letter verbose letters) rest
    | .long name none     => do
      if name = "verbose" then readArgs (← raise verbose) rest
      else if name = "version" then versionNow
      else if name = "help" then helpNow
      else unusable
    | .long _    (some _) => unusable

end CommandLine

/-- What a command line asks for, if it can be used. -/
def Request.ofArgs (args : List RawText) : Option Request :=
  match CommandLine.readArgs false args with
  | .ok request => some request
  | .error stop => stop

end Jsni

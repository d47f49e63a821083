import Jsni.Text.Raw

/-!
# Files

Reading text files, which may fail, from anywhere or from a directory held in memory.
-/

namespace Jsni

/-- Why a file cannot be read as text. -/
inductive FileError where
  | notFound
  | isDirectory
  | notDirectory
  | invalidText
  | other (message : String)
deriving DecidableEq, Repr, Inhabited

def FileError.message : FileError → String
  | notFound      => "No such file or directory (os error 2)"
  | isDirectory   => "Is a directory (os error 21)"
  | notDirectory  => "Not a directory (os error 20)"
  | invalidText   => "stream did not contain valid UTF-8"
  | other message => message

/-- How files are read, by path. -/
abbrev FileReader :=
  Path → Except FileError String

def decodeFile (bytes : ByteArray) : Except FileError String :=
  match String.fromUTF8? bytes with
  | some text => .ok text
  | none      => .error .invalidText

/-- The segments of a path. -/
def segments (path : String) : List String :=
  path.splitOn "/"

/-- Whether a segment leads nowhere. -/
def isIdle (segment : String) : Bool :=
  segment = "" || segment = "."

/-- A directory with all the files below it, each under the segments of its path. -/
structure Workspace where
  files : List (List String × ByteArray)

namespace Workspace

def ofFiles (files : List (String × ByteArray)) : Workspace :=
  ⟨files.map fun (path, bytes) => ((segments path).filter (! isIdle ·), bytes)⟩

def file? (w : Workspace) (place : List String) : Option ByteArray :=
  (w.files.reverse.find? (·.1 = place)).map (·.2)

/-- Whether a place is the workspace itself or a directory on the way to one of its files. -/
def isDirectory (w : Workspace) (place : List String) : Bool :=
  place = [] || w.files.any fun (path, _) => place.isPrefixOf path && place ≠ path

/-- Follow the segments of a path from a place in the workspace. -/
def locate (w : Workspace) (place : List String) : List String → Except FileError (List String)
  | []                  => .ok place
  | segment :: following =>
    if ! w.isDirectory place then
      .error (if (w.file? place).isSome then .notDirectory else .notFound)
    else if isIdle segment then w.locate place following
    else if segment = ".." then
      match place with
      | []     => .error .notFound
      | _ :: _ => w.locate place.dropLast following
    else w.locate (place ++ [segment]) following

/-- Read a file below the workspace. All names in it are texts. -/
def read (w : Workspace) : FileReader := fun path => do
  let some path := path.text? | throw .notFound
  if path = "" || path.startsWith "/" then
    throw .notFound
  let place ← w.locate [] (segments path)
  match w.file? place with
  | some bytes => decodeFile bytes
  | none       => throw (if w.isDirectory place then .isDirectory else .notFound)

end Workspace

end Jsni

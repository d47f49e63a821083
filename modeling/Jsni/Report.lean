import Jsni.Index.File
import Jsni.Json.Basic
import Jsni.Problem.File
import Jsni.Table
import Jsni.Validation
import Jsni.Workspace

/-!
# Reports

A report pairs source units with their results and shows the problems with their places in the
files. `checkFiles` makes one from files by reading, in this order, the index, the severities and
the sources.
-/

namespace Jsni

/-! ## Reports -/

/-- A marker with the place of its problem. -/
structure FileMarker where
  path : Path
  place : Text.LineColumn
  marker : Marker
deriving DecidableEq, Repr

/-- Source units with their results, in order. -/
structure Report where
  entries : List (SourceUnit × ValidationResult)

namespace Report

def problems (r : Report) : List Problem :=
  r.entries.flatMap (·.2.problems)

def problemCount (r : Report) : Nat :=
  r.problems.length

def errorCount (r : Report) : Nat :=
  r.problems.countP (·.severity = .error)

def unitMarkers (u : SourceUnit) (result : ValidationResult) : Option (List FileMarker) :=
  result.markers.mapM fun marker =>
    (Text.lineColumn u.source marker.offset).map fun place => ⟨u.path, place, marker⟩

/-- The markers of all units, unless some offset falls inside a character of its source. -/
def markers (r : Report) : Option (List FileMarker) :=
  (r.entries.mapM fun (u, result) => unitMarkers u result).map List.flatten

end Report

/-- Why a marker cannot be written. -/
inductive WriteError where
  | pathNotText
deriving DecidableEq, Repr

def WriteError.message : WriteError → String
  | pathNotText => "path contains invalid UTF-8 characters"

namespace FileMarker

def location (m : FileMarker) : String :=
  m.path.display ++ ":" ++ toString m.place.line ++ ":" ++ toString m.place.column

/-- The marker as a row of a table. -/
def cells (m : FileMarker) : List String :=
  [m.location, m.marker.severity.keyword, toString m.marker.id, m.marker.message]

def toJson (m : FileMarker) : Except WriteError Json := do
  let some path := m.path.text? | throw .pathNotText
  return .object [
    ("path", .string path),
    ("line", .number m.place.line),
    ("column", .number m.place.column),
    ("marker_type", .string Marker.type),
    ("id", .number m.marker.id),
    ("key", .string m.marker.key),
    ("severity", .string m.marker.severity.keyword),
    ("message", .string m.marker.message),
    ("offset", .number m.marker.offset),
    ("length", .number m.marker.length)]

end FileMarker

/-! ## Checking files -/

/-- Why files cannot be checked. -/
inductive CheckError where
  | file (e : FileError)
  | json (e : Json.ReadError)
  | unknownKey (key : String)
deriving DecidableEq, Repr

namespace CheckError

def ofSeverityFile : SeverityFileError → CheckError
  | .json e         => json e
  | .unknownKey key => unknownKey key

def message : CheckError → String
  | file e         => "I/O error: " ++ e.message
  | json e         => "JSON serialization/deserialization error: " ++ e.message
  | unknownKey key => "Configuration error: unknown problem type '" ++ key ++ "'"

end CheckError

def readIndex (read : FileReader) (path : Path) : Except CheckError StaticIndex := do
  let text ← (read path).mapError .file
  (StaticIndex.ofJson text).mapError .json

def readSeverities (read : FileReader) : Option Path → Except CheckError Severities
  | none      => .ok .default
  | some path => do
    let text ← (read path).mapError .file
    (Severities.ofJson text).mapError .ofSeverityFile

def readUnit (parse : Java.Parser) (read : FileReader) (path : Path) :
    Except CheckError SourceUnit := do
  let source ← (read path).mapError .file
  return .ofTree path source (parse source)

def checkUnits (idx : TypeIndex) (s : Severities) (units : List SourceUnit) : Report :=
  ⟨units.zip (idx.validateAll s units)⟩

/-- Check source files against an index. -/
def checkFiles (parse : Java.Parser) (read : FileReader) (files : List Path) (index : Path)
    (severities : Option Path) : Except CheckError Report := do
  let idx ← readIndex read index
  let s ← readSeverities read severities
  let units ← files.mapM (readUnit parse read)
  return checkUnits idx.toIndex s units

end Jsni

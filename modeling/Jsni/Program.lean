import Jsni.CommandLine
import Jsni.Query.View
import Jsni.Report

/-!
# The program

What the program prints and how it exits, given its arguments, a parser and a way to read files.
-/

namespace Jsni

structure ExitState where
  code : Nat
  stdout : String := ""
  stderr : String := ""
deriving DecidableEq, Repr

namespace Program

def versionText : String :=
  "jsniscope 0.1.0\n"

def usageText : String :=
  "Usage: jsniscope [-v] check <FILES>... --index <JSON> [--severities <JSON>] [--json]\n"
    ++ "       jsniscope [-v] terms <QUERY>\n"
    ++ "       jsniscope --version\n"

def failure (stdout message : String) : ExitState :=
  ⟨1, stdout, "Error: " ++ message ++ "\n"⟩

/-- The markers of a report as text: JSON on request, else a table unless there are none. -/
def renderMarkers (r : Report) (markers : List FileMarker) (json : Bool) :
    Except WriteError String := do
  if json then return Json.renderPretty (.array (← markers.mapM FileMarker.toJson))
  else if r.problemCount = 0 then
    return "No JSNI problems in " ++ toString r.entries.length ++ " file(s)."
  else return Table.render ["location", "severity", "id", "message"] (markers.map FileMarker.cells)

def showReport (r : Report) (json : Bool) : ExitState :=
  match r.markers with
  | none         => ⟨101, "", "offset inside a character\n"⟩
  | some markers =>
    match renderMarkers r markers json with
    | .error e => failure "" e.message
    | .ok text =>
      let stdout := text ++ "\n"
      if r.errorCount = 0 then ⟨0, stdout, ""⟩
      else failure stdout (toString r.errorCount ++ " JSNI error(s) found")

def runCommand (parse : Java.Parser) (read : FileReader) : Command → ExitState
  | .terms query                        => ⟨0, Query.render query ++ "\n", ""⟩
  | .check files index severities json  =>
    match checkFiles parse read files index severities with
    | .error e => failure "" e.message
    | .ok r    => showReport r json

/-- Run the program. -/
def run (parse : Java.Parser) (read : FileReader) (args : List RawText) : ExitState :=
  match Request.ofArgs args with
  | none                  => ⟨2, "", usageText⟩
  | some .version         => ⟨0, versionText, ""⟩
  | some .help            => ⟨0, usageText, ""⟩
  | some (.run _ command) => runCommand parse read command

/-- The files that a command line names. -/
def filesOf (args : List RawText) : List Path :=
  match Request.ofArgs args with
  | some (.run _ (.check files index severities _)) => index :: severities.toList ++ files
  | _                                               => []

end Program

end Jsni

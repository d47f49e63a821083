import Jsni.Json.Decode
import Jsni.Problem.Severities

/-!
# Severity files

A JSON object from the keys of problem kinds to severities. Of repeated keys the last counts.
-/

namespace Jsni

/-- Why a severity file cannot be used. -/
inductive SeverityFileError where
  | json (e : Json.ReadError)
  | unknownKey (key : String)
deriving DecidableEq, Repr

def Severity.decode : Json.Decoder Severity :=
  Json.Decode.variant Severity.ofKeyword? (Severity.all.map Severity.keyword)

def Severities.ofJson (text : String) : Except SeverityFileError Severities :=
  match Json.decodeText (Json.Decode.pairs Severity.decode) text with
  | .error e  => .error (.json e)
  | .ok pairs => (Severities.ofKeys pairs).mapError .unknownKey

end Jsni

/-!
# Failures of a type index
-/

namespace Jsni

/-- Why a type index could not answer. -/
inductive IndexError where
  | stale (detail : String)
  | unavailable (detail : String)
  | invalidDescriptor (text : String)
  | internal (detail : String)
deriving DecidableEq, Repr, Inhabited

def IndexError.message : IndexError → String
  | stale detail           => "Stale index entry: " ++ detail
  | unavailable detail     => "Index unavailable: " ++ detail
  | invalidDescriptor text => "Invalid type descriptor: " ++ text
  | internal detail        => "Internal error: " ++ detail

end Jsni

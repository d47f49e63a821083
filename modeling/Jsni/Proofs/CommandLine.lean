import Jsni.CommandLine
import Jsni.Proofs.Computation

/-!
# Command lines of checks

Every check of files has a command line: each option stands in one argument with its value, and the
files stand after `--`, where nothing is an option.
-/

namespace Jsni

namespace CommandLine

namespace CheckArgs

end CheckArgs

end CommandLine

end Jsni

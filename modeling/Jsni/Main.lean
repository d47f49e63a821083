import Jsni.Program

/-!
# Command line entry

Reads the files that the arguments name, runs the program on them and prints what it says.
-/

namespace Jsni

def FileError.ofIOError : IO.Error → FileError
  | .noFileOrDirectory ..  => .notFound
  | .inappropriateType ..  => .isDirectory
  | e                      => .other (toString e)

def readFile (path : Path) : IO (Except FileError String) := do
  try
    return decodeFile (← IO.FS.readBinFile path.display)
  catch e => return .error (.ofIOError e)

end Jsni

open Jsni in
def main (args : List String) : IO UInt32 := do
  let args := args.map RawText.ofString
  let files ← (Program.filesOf args).mapM fun path => return (path, ← readFile path)
  let read : FileReader := fun path => (files.lookup path).getD (.error .notFound)
  let result := Program.run Java.parse read args
  IO.print result.stdout
  IO.eprint result.stderr
  return result.code.toUInt32

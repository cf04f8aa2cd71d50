import Lucha.Command.Run

/-!
# The program

Reads the files that the arguments name, and prints what the command line answers.
-/

namespace Lucha.Command

/-- What a file holds. -/
def readFile (path : String) : IO (Except ReadFailure String) := do
  try
    let bytes ← IO.FS.readBinFile path
    return match String.fromUTF8? bytes with
      | some text => .ok text
      | none => .error .notText
  catch error =>
    return match error with
      | .noFileOrDirectory .. => .error .missing
      | .inappropriateType .. => .error .directory
      | error => .error (.other (toString error))

/-- Prints what the command line answers, and gives the exit code. -/
def perform (arguments : List String) : IO UInt32 := do
  let paths := match Options.ofArguments arguments with
    | .ok options => options.files
    | .error _ => []
  let contents ← paths.mapM fun path => return (path, ← readFile path)
  let output := run arguments fun path => (contents.lookup path).getD (.error .missing)
  IO.print output.printed
  IO.eprint output.complaint
  return output.code.toUInt32

end Lucha.Command

def main (arguments : List String) : IO UInt32 :=
  Lucha.Command.perform arguments

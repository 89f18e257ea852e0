import NemSigner.CommandLine.Outcome

/-!
# The command line

Reads the one file that a command may need, and hands the rest to the library.
-/

open NemSigner

/-- Why a file cannot be read, in the words and with the number of the operating system. -/
def readingReason : IO.Error → String
  | .noFileOrDirectory _ _ _ => "No such file or directory (os error 2)"
  | .permissionDenied _ _ _ => "Permission denied (os error 13)"
  | .inappropriateType _ _ _ => "Is a directory (os error 21)"
  | .userError _ => "stream did not contain valid UTF-8"
  | error => toString error

/-- The files that a command can see. -/
def filesOf (arguments : List String) : IO Files := do
  match (Command.ofArguments? arguments).bind Command.source? with
  | some (.file path) =>
    let content ← (IO.FS.readFile path).toBaseIO
    return fun _ => content.mapError readingReason
  | _ => return fun _ => .error "no file"

def main (arguments : List String) : IO UInt32 := do
  let outcome := Command.runArguments (← filesOf arguments) arguments
  (← IO.getStdout).putStr outcome.shown
  (← IO.getStderr).putStr outcome.complaint
  return outcome.code.toUInt32

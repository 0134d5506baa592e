import Lossless.Command

/-!
# The program

Reads the files that a command needs, runs it, and writes what it says.
-/

namespace Lossless

/-- The files that a command needs. -/
def Command.paths : Command → List String
  | tokens path config _ => path :: config.toList
  | tree path _ _ => [path]

/-- Reads a file as text. -/
def readText (path : String) : IO (Except ReadFailure String) := do
  try
    match String.fromUTF8? (← IO.FS.readBinFile path) with
    | some text => return .ok text
    | none => return .error .notText
  catch _ =>
    return .error .missing

/-- Runs a command over the files it needs and gives its exit status. -/
def Command.perform (command : Command) : IO UInt32 := do
  let contents ← command.paths.mapM fun path => do return (path, ← readText path)
  let files : Files := fun path => (contents.lookup path).getD (.error .missing)
  let result := command.run files
  (← IO.getStderr).putStr result.errorOutput
  (← IO.getStdout).putStr result.output
  return result.status.toUInt32

end Lossless

/-- The command line. -/
def main (args : List String) : IO UInt32 := do
  match Lossless.Command.ofArguments? args with
  | some command => command.perform
  | none =>
    IO.eprintln "usage: tokens PATH [--config FILE] [--json]"
    IO.eprintln "       tree PATH [--no-tokens] [--no-trivia] [--trace]"
    return 2

import Conform.CommandLine

/-!
# The program

Reads the files that a command needs, carries it out and prints what it says.
-/

namespace Conform

namespace Main

/-- Why a file cannot be read. -/
def reason : IO.Error → String
  | .noFileOrDirectory .. => "No such file or directory (os error 2)"
  | .permissionDenied .. => "Permission denied (os error 13)"
  | .inappropriateType .. => "Is a directory (os error 21)"
  | e => toString e

def readFile (path : String) : IO (String × Except String String) := do
  try
    return (path, .ok (← IO.FS.readFile path))
  catch e =>
    return (path, .error (reason e))

/-- Print an output; its exit code is the answer. -/
def print (output : CommandLine.Output) : IO UInt32 := do
  IO.print output.stdout
  match output.error with
  | some message => IO.eprintln ("error: " ++ message)
  | none => if output.exit = 2 then IO.eprint CommandLine.usage
  return output.exit.toUInt32

/-- The exit code of a command that uses up its stack. -/
def aborted : UInt32 := 134

end Main

end Conform

open Conform

def main (words : List String) : IO UInt32 := do
  match CommandLine.read words with
  | .error halt => Main.print halt.output
  | .ok command =>
    let read ← command.paths.mapM Main.readFile
    let files : ReadFile := fun path =>
      (read.lookup path).getD (.error "No such file or directory (os error 2)")
    match command.run files with
    | some output => Main.print output
    | none => return Main.aborted

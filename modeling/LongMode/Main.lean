import LongMode.CommandLine.Run

/-!
# The command

Reads the program file, runs the command line, and prints what comes of it.
-/

namespace LongMode.CommandLine

def usage : String :=
  "usage: longmode [-h] [--program PROGRAM] [--inline INLINE] [--memory-size MEMORY_SIZE] [--dump ADDRESS[:SIZE]]\n" ++
  "                [--trace] [--quiet] [--verbose]"

/-- The text of a file, if it can be read. -/
def readIfPresent (name : String) : IO (Option String) :=
  try
    return some (← IO.FS.readFile name)
  catch _ => return none

/-- The text of the file that the arguments name. -/
def programText (arguments : List String) : IO (String → Option String) := do
  match readSettings (arguments.map String.toList) with
  | .ok { program := some name, .. } =>
    let text ← readIfPresent (String.ofList name)
    return fun _ => text
  | _ => return fun _ => none

end LongMode.CommandLine

open LongMode.CommandLine in
def main (arguments : List String) : IO UInt32 := do
  let files ← programText arguments
  match run files arguments with
  | .help =>
    IO.println usage
    return 0
  | .refused e =>
    IO.eprintln usage
    IO.eprintln ("longmode: error: " ++ e.message)
    return 2
  | .unsized =>
    IO.eprintln "longmode: error: no memory size"
    return 1
  | .finished code output log =>
    IO.print output
    IO.eprint log
    return UInt32.ofNat code

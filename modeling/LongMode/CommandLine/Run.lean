import LongMode.CommandLine.Options
import LongMode.Session.Display

/-!
# Running from the command line

The program comes from a file or from an argument, where semicolons separate instructions.  The output names the
source, lists the machine code, reports the error that stopped the run, and shows the registers; options replace the
list by a full trace, leave all but the registers that are not zero away, and add a memory dump.
-/

namespace LongMode.CommandLine

/-- What a command line leads to: an exit code with what is printed and what is logged, or a refusal.  Without a memory
size there is no machine to run on. -/
inductive Outcome
  | help
  | refused (error : UsageError)
  | unsized
  | finished (exitCode : Nat) (output log : String)
  deriving DecidableEq, Repr

/-- Carriage returns, alone or before a line feed, become line feeds. -/
def unifyLineEnds : List Char → List Char
  | '\r' :: '\n' :: rest => '\n' :: unifyLineEnds rest
  | '\r' :: rest => '\n' :: unifyLineEnds rest
  | c :: rest => c :: unifyLineEnds rest
  | [] => []

/-- Each line with a line feed after it. -/
def printed (lines : List String) : String := String.join (lines.map fun line => line ++ "\n")

/-- The instruction and its machine code in two columns. -/
def listingLine (e : TraceEntry) : String :=
  Text.padRight 32 ' ' e.instruction.text ++ " " ++
    match e.encoding with
    | .ok bytes => formatBytes bytes
    | .error _ => "??"

/-- The error that stopped a run, and how many instructions it kept from running. -/
def failureLines (r : RunReport) : List String :=
  match r.failure with
  | none => []
  | some (index, e) =>
    ("Error at instruction " ++ toString index ++ ": " ++ e.message) ::
      if r.notAttempted = 0 then [] else [toString r.notAttempted ++ " instruction(s) not executed"]

def nonzeroRegisters (m : Machine) : List String :=
  (Cell.all.filter fun c => m.cell c != 0).map fun c => c.name ++ "=" ++ Text.hex (m.cell c)

/-- The log of a run: each executed instruction, and what stopped it. -/
def logLines (r : RunReport) : List String :=
  let executed := (r.entries.filter TraceEntry.succeeded).map fun e =>
    "DEBUG x86_sim.registry: executed " ++ e.instruction.text ++ " -> rip=" ++ Text.decimal e.after.rip
  let stopped := r.entries.filterMap fun e => e.fault.map fun f =>
    "WARNING x86_sim.cpu: run stopped at instruction " ++ toString e.index ++ " (" ++ e.instruction.text ++ "): " ++
      f.message ++ "; " ++ toString r.notAttempted ++ " not attempted"
  let unread := match r.failure with
    | some (index, .unread e) =>
      ["WARNING x86_sim.cpu: line " ++ toString index ++ " not parsed: " ++ e.message]
    | _ => []
  executed ++ stopped ++ unread

/-- Where the program comes from, and its text. -/
structure ProgramSource where
  heading : String
  text : List Char

/-- The source that the settings ask for, or the name of a file that is missing. -/
def findSource (c : Settings) (fileText : String → Option String) : Except String ProgramSource :=
  match c.program.filter fun name => !name.isEmpty with
  | some name =>
    let name := String.ofList name
    match fileText name with
    | some text => .ok ⟨"Loading program: " ++ name, unifyLineEnds text.toList⟩
    | none => .error name
  | none =>
    let text := c.inlineSource.getD []
    .ok ⟨"Running inline assembly", text.map fun ch => if ch = ';' then '\n' else ch⟩

/-- What is printed about a run. -/
def report (c : Settings) (source : ProgramSource) (r : RunReport) (s : Session) : List String :=
  let opening := if c.quiet then [] else [source.heading, String.ofList (List.replicate 60 '-')]
  let listing := if c.quiet || c.trace then [] else r.entries.map listingLine
  let state :=
    if c.quiet then printed (nonzeroRegisters s.machine) else printed ["", s.machine.formatState]
  let dump := match c.dump with
    | some (address, size) => ["", s.machine.dumpMemory address size .hex]
    | none => []
  [printed (opening ++ listing ++ failureLines r), if c.trace then s.traceText else state, printed dump]

/-- Runs a command line, given the texts of files. -/
def run (fileText : String → Option String) (arguments : List String) : Outcome :=
  match readSettings (arguments.map String.toList) with
  | .error .help => .help
  | .error (.error e) => .refused e
  | .ok c =>
    match c.memorySize.map Session.create with
    | none => .unsized
    | some (.error e) => .refused (.capacity e)
    | some (.ok session) =>
      match findSource c fileText with
      | .error name => .finished 1 (printed ["Error: Program file not found: " ++ name]) ""
      | .ok source =>
        let (r, s) := session.run source.text
        .finished (if r.completed then 0 else 1) (String.join (report c source r s))
          (if c.verbose then printed (logLines r) else "")

end LongMode.CommandLine

import LongMode.Session.Display
import LongMode.Text.Literal
import LongMode.Text.Quoted

/-!
# The workbench

Runs a program on a new session and fills four panels: a summary, the trace of at most a hundred instructions, the
registers and flags in the end, and a memory dump.  The address of the dump is text; an empty one means zero.
-/

namespace LongMode.Workbench

structure Panels where
  summary : String
  trace : String
  registers : String
  memory : String
  deriving DecidableEq, Repr

/-- A message in place of the summary, and nothing else. -/
def Panels.ofMessage (message : String) : Panels := ⟨message, "", "", ""⟩

def rule (n : Nat) (c : Char) : String := String.ofList (List.replicate n c)

def summaryPanel (r : RunReport) (s : Session) : String :=
  let stopped := match r.failure with
    | none => []
    | some (index, e) =>
      ["\nStopped at instruction " ++ toString index ++ ":", "  " ++ e.message] ++
        if r.notAttempted = 0 then [] else ["  " ++ toString r.notAttempted ++ " instruction(s) not attempted"]
  unlines (["EXECUTION SUMMARY", rule 40 '=',
    "Executed: " ++ toString s.executed ++ " / " ++ toString r.total,
    "Completed: " ++ (if r.completed then "Yes" else "No")] ++ stopped)

def entryLines (e : TraceEntry) : List String :=
  let error := match e.fault with
    | none => ""
    | some f => f.message
  ["\n--- [" ++ toString e.index ++ "] " ++ (if e.succeeded then "OK" else "FAILED") ++ " ---",
    "Instruction: " ++ e.instruction.text, "Bytes:       " ++ e.bytesText] ++
    TraceEntry.labelled "Error:       " error ++
    TraceEntry.labelled "Changes:     " (e.registerChangesText "->") ++
    TraceEntry.labelled "Flags:       " (e.flagChangesText "->")

def entriesShown : Nat := 100

def tracePanel (r : RunReport) : String :=
  let hidden := r.entries.length - entriesShown
  unlines (["EXECUTION TRACE", rule 60 '='] ++ (r.entries.take entriesShown).flatMap entryLines ++
    if hidden = 0 then [] else ["\n... (" ++ toString hidden ++ " more entries)"])

def registersPanel (m : Machine) : String :=
  let cells := Cell.all.map fun c =>
    "  " ++ Text.padLeft 3 ' ' c.name ++ ": " ++ Text.paddedHex 18 (m.cell c) ++ (if m.cell c = 0 then "" else " *")
  let flags := Flag.all.map fun f => "  " ++ f.name ++ ": " ++ bit (m.flags.get f)
  unlines (["FINAL REGISTERS", rule 30 '='] ++ cells ++ ["", "FLAGS", rule 30 '-'] ++ flags ++
    ["  rflags: " ++ Text.paddedHex 6 m.flags.register])

/-- Runs a program and fills the panels. -/
def run (program : String) (memorySize : Int) (dumpAddress : String) (dumpSize : Int) :
    Except CapacityError Panels :=
  if (Text.trim program.toList).isEmpty then .ok (.ofMessage "Error: No program provided")
  else
    let address := Text.trim dumpAddress.toList
    match if address.isEmpty then some 0 else Text.literal? address with
    | none => .ok (.ofMessage ("Error: Invalid dump address " ++ Text.quoted dumpAddress.toList))
    | some address => do
      let session ← Session.create memorySize
      let (r, s) := session.run program.toList
      return ⟨summaryPanel r s, tracePanel r, registersPanel s.machine, s.machine.dumpMemory address dumpSize .hex⟩

end LongMode.Workbench

import LongMode.Session.Basic

/-!
# Display

The texts that show registers, memory, the machine and a trace to a reader.
-/

namespace LongMode

/-- Lines with line feeds between them. -/
def unlines (lines : List String) : String := "\n".intercalate lines

def bit (b : Bool) : String := if b then "1" else "0"

/-- Consecutive groups of `n` elements; the last group may be shorter. -/
def groupsOf {α : Type} (n : Nat) (l : List α) : List (List α) :=
  (List.range ((l.length + n - 1) / n)).map fun i => (l.drop (i * n)).take n

namespace Machine

/-- The machine on one line. -/
def summaryLine (m : Machine) : String :=
  let registers := Cell.all.map fun c => c.name ++ "=" ++ Text.hex (m.cell c)
  let flags := Flag.all.map fun f => f.name ++ "=" ++ bit (m.flags.get f)
  "RIP=" ++ Text.decimal m.rip ++ " " ++ " ".intercalate registers ++ " " ++ " ".intercalate flags

/-- A view in hexadecimal with all its digits. -/
def viewInHex (m : Machine) (v : View) : String :=
  v.name ++ ": " ++ Text.paddedHex (v.bits / 4 + 2) (m.readView v)

/-- A view in decimal, with its signed reading where that is negative. -/
def viewInDecimal (m : Machine) (v : View) : String :=
  let value := m.readView v
  let reading := if 2 ^ (v.bits - 1) ≤ value then " (signed " ++ Text.decimal (value - 2 ^ v.bits) ++ ")" else ""
  v.name ++ " = " ++ toString value ++ reading

def vectorInHex (m : Machine) (x : VectorRegister) : String :=
  x.name ++ ": " ++ Text.paddedHex (VectorRegister.bits / 4 + 2) (m.readVector x)

/-- The lanes of a vector register in decimal, the lowest first. -/
def vectorInDecimal (m : Machine) (x : VectorRegister) : String :=
  x.name ++ " = lanes [" ++ ", ".intercalate ((lanes (m.readVector x)).map toString) ++ "]"

/-- One register, in decimal for a human reader and else in hexadecimal. -/
def formatRegister (m : Machine) (name : String) (human : Bool) : Except UnknownRegister String :=
  (RegisterName.find name).map fun
    | .view v => if human then m.viewInDecimal v else m.viewInHex v
    | .vector x => if human then m.vectorInDecimal x else m.vectorInHex x

/-- Four cells on a line, then the counter and the flags, then two vector registers on a line with their lanes from
the highest to the lowest. -/
def formatState (m : Machine) : String :=
  let registers := (groupsOf 4 Cell.all).map fun row => "  ".intercalate (row.map fun c =>
    Text.padLeft 3 ' ' c.name ++ "=" ++ Text.padLeft 16 '0' (Text.hexDigits (m.cell c)))
  let flags := Flag.all.map fun f => f.name ++ "=" ++ bit (m.flags.get f)
  let status := "rip=" ++ Text.decimal m.rip ++ "  rflags=" ++ Text.paddedHex 6 m.flags.register ++ "  " ++
    " ".intercalate flags
  let vectors := (groupsOf 2 VectorRegister.all).map fun row => "  ".intercalate (row.map fun x =>
    Text.padLeft 5 ' ' x.name ++ "=" ++
      " ".intercalate ((lanes (m.readVector x)).reverse.map fun n => Text.padLeft 8 '0' (Text.hexDigits n)))
  unlines (registers ++ [status, "xmm (dword lanes 3..0):"] ++ vectors)

end Machine

/-! ### Memory dumps -/

inductive DumpFormat
  | hex | decimal
  deriving DecidableEq, Repr

/-- A dump format of another name. -/
structure UnknownFormat where
  name : String
  deriving DecidableEq, Repr

def UnknownFormat.message (e : UnknownFormat) : String := "Unknown dump format: " ++ e.name

def DumpFormat.find (name : String) : Except UnknownFormat DumpFormat :=
  if name = "hex" then .ok .hex else if name = "decimal" then .ok .decimal else .error ⟨name⟩

namespace Machine

/-- A byte of a dump; question marks stand outside memory. -/
def dumpCell (m : Machine) (format : DumpFormat) (address : Int) : String :=
  let inside := 0 ≤ address ∧ address < m.capacity
  match format with
  | .hex => if inside then Text.padLeft 2 '0' (Text.hexDigits (m.memory.byte address.toNat).toNat) else "??"
  | .decimal => if inside then Text.padLeft 3 ' ' (toString (m.memory.byte address.toNat).toNat) else " ??"

def bytesPerRow : Nat := 16

/-- Whole rows of sixteen bytes, at least one row, after a heading. -/
def dumpMemory (m : Machine) (address size : Int) (format : DumpFormat) : String :=
  let rows := max 1 ((size + bytesPerRow - 1) / bytesPerRow).toNat
  let lines := (List.range rows).map fun (row : Nat) =>
    let start := address + row * bytesPerRow
    Text.paddedHex 10 start ++ ":  " ++
      " ".intercalate ((List.range bytesPerRow).map fun (i : Nat) => m.dumpCell format (start + i))
  unlines (("Memory dump at " ++ Text.signedHex address ++ ":") :: lines)

end Machine

/-! ### Traces -/

namespace TraceEntry

/-- The bytes of the instruction, or in angle brackets why there are none. -/
def bytesText (e : TraceEntry) : String :=
  match e.encoding with
  | .ok bytes => formatBytes bytes
  | .error err => "<" ++ err.message ++ ">"

/-- The changed registers with an arrow from the old to the new value. -/
def registerChangesText (e : TraceEntry) (arrow : String) : String :=
  ", ".intercalate (e.registerChanges.map fun p =>
    p.1 ++ ": " ++ Text.hex p.2.before ++ " " ++ arrow ++ " " ++ Text.hex p.2.after)

def flagChangesText (e : TraceEntry) (arrow : String) : String :=
  ", ".intercalate (e.flagChanges.map fun p =>
    p.1.name ++ ": " ++ bit p.2.before ++ " " ++ arrow ++ " " ++ bit p.2.after)

/-- A line with a label, left out where there is nothing to show. -/
def labelled (label content : String) : List String := if content.isEmpty then [] else [label ++ content]

/-- One entry of a printed trace. -/
def lines (e : TraceEntry) (cycle : Nat) : List String :=
  let status := match e.fault with
    | none => "OK"
    | some f => "ERROR: " ++ f.message
  ["", "[" ++ toString cycle ++ "] " ++ status, "  Instruction: " ++ e.instruction.text, "  Bytes: " ++ e.bytesText] ++
    labelled "  Changes: " (e.registerChangesText "→") ++ labelled "  Flags: " (e.flagChangesText "→")

end TraceEntry

/-- The trace with the state of the machine at the end, each line with a line feed. -/
def Session.traceText (s : Session) : String :=
  let rule := String.ofList (List.replicate 70 '=')
  let entries := s.trace.zipIdx.flatMap fun (e, cycle) => e.lines cycle
  String.join (([rule, "X86-SIM EXECUTION TRACE", rule] ++ entries ++
    ["", rule, "FINAL STATE", rule, s.machine.formatState]).map fun line => line ++ "\n")

end LongMode

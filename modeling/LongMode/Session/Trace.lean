import LongMode.Assembly.Program
import LongMode.Execution.Registry
import LongMode.MachineCode.Encode

/-!
# Traces and runs

A trace entry records one attempted instruction: its machine code, the fault that stopped it if any, and the registers
and flags before and after.  A run attempts instructions in order until one faults, and reports what became of every
instruction submitted.  Encoding and execution are independent: an instruction without machine code still executes.
-/

namespace LongMode

structure TraceEntry where
  index : Nat
  instruction : Instruction
  encoding : Except EncodeError (List UInt8)
  fault : Option Fault
  before : Snapshot
  after : Snapshot

namespace TraceEntry

def succeeded (e : TraceEntry) : Bool := e.fault.isNone

/-- A value before and after. -/
structure Change (α : Type) where
  before : α
  after : α
  deriving DecidableEq, Repr

/-- The registers that changed, cells before vector registers. -/
def registerChanges (e : TraceEntry) : List (String × Change Nat) :=
  let cells := Cell.all.map fun c =>
    (c.name, Change.mk (e.before.registers.get c.number) (e.after.registers.get c.number))
  let vectors := VectorRegister.all.map fun x =>
    (x.name, Change.mk (e.before.vectors.get x.number) (e.after.vectors.get x.number))
  (cells ++ vectors).filter fun p => p.2.before != p.2.after

def flagChanges (e : TraceEntry) : List (Flag × Change Bool) :=
  (Flag.all.map fun f => (f, Change.mk (e.before.flags.get f) (e.after.flags.get f))).filter
    fun p => p.2.before != p.2.after

end TraceEntry

/-- Attempts one instruction. -/
def Machine.attempt (m : Machine) (index : Nat) (i : Instruction) : TraceEntry × Machine :=
  match m.execute i with
  | .ok m' => (⟨index, i, i.encode, none, m.snapshot, m'.snapshot⟩, m')
  | .error f => (⟨index, i, i.encode, some f, m.snapshot, m.snapshot⟩, m)

/-- What stopped a run. -/
inductive RunError
  | unread (error : ParseError)
  | fault (fault : Fault)
  deriving DecidableEq, Repr

def RunError.message : RunError → String
  | unread e => e.message
  | fault f => f.message

/-- The entries of a run, the number of instructions submitted, and the index and cause of a failure. -/
structure RunReport where
  entries : List TraceEntry
  total : Nat
  failure : Option (Nat × RunError)

namespace RunReport

def completed (r : RunReport) : Bool := r.failure.isNone

/-- How many instructions come after the failing one. -/
def notAttempted (r : RunReport) : Nat :=
  match r.failure with
  | none => 0
  | some (index, _) => r.total - index - 1

end RunReport

namespace Machine

/-- The entries from an index on, the first fault, and the machine in the end. -/
def attemptAll (m : Machine) (index : Nat) :
    List Instruction → List TraceEntry × Option (Nat × RunError) × Machine
  | [] => ([], none, m)
  | i :: rest =>
    let (entry, m') := m.attempt index i
    match entry.fault with
    | some f => ([entry], some (index, .fault f), m')
    | none =>
      let (entries, failure, last) := m'.attemptAll (index + 1) rest
      (entry :: entries, failure, last)

/-- Runs instructions until one faults. -/
def run (m : Machine) (instructions : List Instruction) : RunReport × Machine :=
  let (entries, failure, last) := m.attemptAll 0 instructions
  (⟨entries, instructions.length, failure⟩, last)

end Machine

end LongMode

import LongMode.Machine.Basic

/-!
# Transactions

An instruction works on a transaction: a machine together with the values that it has written so far.

* A read finds the latest value written in the transaction, and the machine's own value where there is none.
* A write is refused where the machine refuses it, and leaves the machine alone.
* `commit` applies everything at once and counts the instruction; a transaction that is dropped leaves no trace.
-/

namespace LongMode

/-- Written values, the latest first. -/
structure Transaction where
  machine : Machine
  registers : List (Cell × Nat)
  vectors : List (VectorRegister × Nat)
  flags : FlagEffect
  memory : List (Nat × UInt8)

namespace Transaction

def start (m : Machine) : Transaction := ⟨m, [], [], FlagEffect.none, []⟩

/-! ### Registers -/

def cell (t : Transaction) (c : Cell) : Nat := (t.registers.lookup c).getD (t.machine.cell c)

def readView (t : Transaction) (v : View) : Nat := v.read (t.cell v.cell)

def writeView (t : Transaction) (v : View) (value : Int) : Transaction :=
  { t with registers := (v.cell, v.write (t.cell v.cell) value) :: t.registers }

def readVector (t : Transaction) (x : VectorRegister) : Nat := (t.vectors.lookup x).getD (t.machine.readVector x)

def writeVector (t : Transaction) (x : VectorRegister) (value : Int) : Transaction :=
  { t with vectors := (x, truncate VectorRegister.bits value) :: t.vectors }

/-! ### Flags -/

def flag (t : Transaction) (f : Flag) : Bool := (t.flags.get f).getD (t.machine.flags.get f)

def setFlags (t : Transaction) (e : FlagEffect) : Transaction := { t with flags := t.flags.followedBy e }

/-! ### Memory -/

def byte (t : Transaction) (a : Nat) : UInt8 := (t.memory.lookup a).getD (t.machine.memory.byte a)

/-- The bytes at `n` consecutive addresses. -/
def load (t : Transaction) (a : Nat) : (n : Nat) → List UInt8
  | 0 => []
  | n + 1 => t.byte a :: t.load (a + 1) n

/-- Puts bytes at consecutive addresses in front of what is written. -/
def storeBytes (a : Nat) (written : List (Nat × UInt8)) : List UInt8 → List (Nat × UInt8)
  | [] => written
  | b :: rest => storeBytes (a + 1) ((a, b) :: written) rest

def readInteger (t : Transaction) (address : Int) (size : Nat) : Except OutOfBounds Nat :=
  if t.machine.Covers address size then .ok (ofLittleEndian (t.load address.toNat size))
  else .error ⟨address, size, t.machine.capacity⟩

def writeInteger (t : Transaction) (address : Int) (size : Nat) (value : Int) : Except OutOfBounds Transaction :=
  if t.machine.Covers address size then
    .ok { t with
      memory := storeBytes address.toNat t.memory (littleEndian size (truncate (8 * size) value)) }
  else .error ⟨address, size, t.machine.capacity⟩

/-! ### The end -/

/-- The machine with everything written. -/
def result (t : Transaction) : Machine :=
  { t.machine with
    registers := t.registers.foldr (fun p b => b.set p.1.number p.2) t.machine.registers
    vectors := t.vectors.foldr (fun p b => b.set p.1.number p.2) t.machine.vectors
    flags := t.flags.apply t.machine.flags
    memory := t.memory.foldr (fun p m => m.setByte p.1 p.2) t.machine.memory }

def commit (t : Transaction) : Machine := t.result.advance

end Transaction

end LongMode

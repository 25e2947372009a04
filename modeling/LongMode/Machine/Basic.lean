import LongMode.Flag
import LongMode.Memory
import LongMode.Register.Bank
import LongMode.Register.Name
import LongMode.Text.Numeral

/-!
# The machine

Sixteen cells, sixteen vector registers, six flags, an instruction counter and a memory of fixed capacity.

* A name reaches a view of a cell or a vector register, in any letter case; an unknown name is refused.
* An access to memory is refused, and nothing is stored, unless the whole range lies inside the capacity.  Addresses
  are integers here, so a range does not wrap around.  Sizes are unbounded too: an integer is cut to any size, however
  large, and then its range is checked.
* A fresh machine holds zeros everywhere but in rsp, which points to the end of memory.
-/

namespace LongMode

structure Machine where
  registers : Bank
  vectors : Bank
  flags : Flags
  rip : Int
  memory : Memory
  capacity : Nat
  deriving DecidableEq

/-- A capacity that is not positive. -/
structure CapacityError where
  size : Int
  deriving DecidableEq, Repr

def CapacityError.message (e : CapacityError) : String :=
  "memory_size must be positive, got " ++ Text.decimal e.size

/-- A range that does not lie inside memory. -/
structure OutOfBounds where
  address : Int
  length : Int
  capacity : Nat
  deriving DecidableEq, Repr

def OutOfBounds.message (e : OutOfBounds) : String :=
  "access of " ++ Text.decimal e.length ++ " byte(s) at " ++ Text.signedHex e.address ++ " outside memory of " ++
    Text.hex e.capacity ++ " bytes"

/-- Why a number is not stored. -/
inductive StoreError
  | negativeSize
  | outOfBounds (access : OutOfBounds)
  deriving DecidableEq, Repr

def StoreError.message : StoreError → String
  | negativeSize => "negative shift count"
  | outOfBounds a => a.message

namespace Machine

/-- One mebibyte. -/
def defaultCapacity : Nat := 0x100000

def fresh (capacity : Nat) : Machine where
  registers := Bank.zero.set Cell.rsp.number capacity
  vectors := Bank.zero
  flags := Flags.clear
  rip := 0
  memory := Memory.zeroed capacity
  capacity := capacity

def create (size : Int) : Except CapacityError Machine :=
  if size ≤ 0 then .error ⟨size⟩ else .ok (fresh size.toNat)

/-- Everything back to the fresh machine of the same capacity. -/
def reset (m : Machine) : Machine := fresh m.capacity

/-! ### Registers -/

def cell (m : Machine) (c : Cell) : Nat := m.registers.get c.number

def readView (m : Machine) (v : View) : Nat := v.read (m.cell v.cell)

def writeView (m : Machine) (v : View) (value : Int) : Machine :=
  { m with registers := m.registers.set v.cell.number (v.write (m.cell v.cell) value) }

def readVector (m : Machine) (x : VectorRegister) : Nat := m.vectors.get x.number

def writeVector (m : Machine) (x : VectorRegister) (value : Int) : Machine :=
  { m with vectors := m.vectors.set x.number (truncate VectorRegister.bits value) }

def readNamed (m : Machine) (name : String) : Except UnknownRegister Nat :=
  (RegisterName.find name).map fun
    | .view v => m.readView v
    | .vector x => m.readVector x

def writeNamed (m : Machine) (name : String) (value : Int) : Except UnknownRegister Machine :=
  (RegisterName.find name).map fun
    | .view v => m.writeView v value
    | .vector x => m.writeVector x value

/-! ### Memory -/

/-- The range of `length` bytes at `address` lies inside memory. -/
def Covers (m : Machine) (address length : Int) : Prop :=
  0 ≤ address ∧ 0 ≤ length ∧ address + length ≤ m.capacity

instance (m : Machine) (address length : Int) : Decidable (m.Covers address length) :=
  inferInstanceAs (Decidable (_ ∧ _ ∧ _))

def readBytes (m : Machine) (address length : Int) : Except OutOfBounds (List UInt8) :=
  if m.Covers address length then .ok (m.memory.load address.toNat length.toNat)
  else .error ⟨address, length, m.capacity⟩

def writeBytes (m : Machine) (address : Int) (bytes : List UInt8) : Except OutOfBounds Machine :=
  if m.Covers address bytes.length then .ok { m with memory := m.memory.store address.toNat bytes }
  else .error ⟨address, bytes.length, m.capacity⟩

/-- The unsigned number in `size` bytes. -/
def readInteger (m : Machine) (address size : Int) : Except OutOfBounds Nat :=
  (m.readBytes address size).map ofLittleEndian

/-- Stores the low `size` bytes of an integer. -/
def writeInteger (m : Machine) (address : Int) (size : Nat) (value : Int) : Except OutOfBounds Machine :=
  if m.Covers address size then
    .ok { m with memory := m.memory.store address.toNat (littleEndian size (truncate (8 * size) value)) }
  else .error ⟨address, size, m.capacity⟩

/-- The same for a size that may be negative. -/
def storeInteger (m : Machine) (address size value : Int) : Except StoreError Machine :=
  if size < 0 then .error .negativeSize else (m.writeInteger address size.toNat value).mapError .outOfBounds

/-! ### Flags and counter -/

def setFlag (m : Machine) (f : Flag) (value : Bool) : Machine := { m with flags := m.flags.set f value }

/-- The counter after one more instruction. -/
def advance (m : Machine) : Machine := { m with rip := (m.rip + 1) % 2 ^ 64 }

end Machine

/-- The registers, the counter and the flags at one moment.  The flags register is not stored beside the flags that it
is made of; `Snapshot.rflags` is its entry. -/
structure Snapshot where
  registers : Bank
  vectors : Bank
  rip : Int
  flags : Flags
  deriving DecidableEq, Repr

def Snapshot.rflags (s : Snapshot) : Nat := s.flags.register

def Machine.snapshot (m : Machine) : Snapshot := ⟨m.registers, m.vectors, m.rip, m.flags⟩

end LongMode

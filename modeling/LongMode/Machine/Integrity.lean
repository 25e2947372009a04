import LongMode.Machine.Basic

/-!
# Integrity

What a stored machine has to look like, said of its parts as values of any kind: sixteen cells of 64 bits, sixteen
vector registers of 128 bits, a counter of 64 bits, exactly the six flags with truth values, and a memory as long as
the capacity.  `Machine.valid` says it of a machine.
-/

namespace LongMode

/-- A stored value: an integer, a truth value, or neither. -/
inductive Stored
  | number (z : Int)
  | truth (b : Bool)
  | other
  deriving DecidableEq, Repr

namespace Stored

/-- An unsigned number of the given width.  A truth value counts as zero or one. -/
def isWord (w : Nat) : Stored → Bool
  | number z => 0 ≤ z && z < 2 ^ w
  | truth _ => 0 < w
  | other => false

def isTruth : Stored → Bool
  | truth _ => true
  | _ => false

end Stored

/-- The parts of a machine as they are stored. -/
structure StoredMachine where
  registers : List Stored
  vectors : List Stored
  rip : Int
  flags : List (String × Stored)
  memoryLength : Int
  capacity : Nat
  deriving DecidableEq, Repr

namespace StoredMachine

/-- The six flags and no other. -/
def hasAllFlags (s : StoredMachine) : Bool :=
  Flag.all.all (fun f => s.flags.any (fun p => p.1 == f.name)) &&
    s.flags.all (fun p => Flag.all.any (fun f => p.1 == f.name))

def valid (s : StoredMachine) : Bool :=
  s.registers.length == 16 && s.registers.all (Stored.isWord 64) &&
    s.vectors.length == 16 && s.vectors.all (Stored.isWord 128) &&
    0 ≤ s.rip && s.rip < 2 ^ 64 &&
    s.hasAllFlags && s.flags.all (fun p => p.2.isTruth) &&
    s.memoryLength == s.capacity

/-- Puts a value into a list of flags, at the place of an older value of the name if there is one. -/
def putFlag (flags : List (String × Stored)) (name : String) (value : Stored) : List (String × Stored) :=
  if flags.any (fun p => p.1 == name) then flags.map (fun p => if p.1 == name then (name, value) else p)
  else flags ++ [(name, value)]

end StoredMachine

namespace Machine

def stored (m : Machine) : StoredMachine where
  registers := m.registers.toList.map fun (n : Nat) => .number n
  vectors := m.vectors.toList.map fun (n : Nat) => .number n
  rip := m.rip
  flags := Flag.all.map fun f => (f.name, .truth (m.flags.get f))
  memoryLength := m.memory.size
  capacity := m.capacity

def valid (m : Machine) : Bool := m.stored.valid

end Machine

end LongMode

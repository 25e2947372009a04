import LongMode.Execution.Registry
import LongMode.Proofs.MachineCode.Checks
import LongMode.Proofs.Untyped.Word

/-!
# Transactions by name

Registers are looked up by their names, every byte of memory by its index in the buffer, and a number is stored as the
bytes that it has to fit.  On names that the library knows, and a buffer that is as long as the capacity, every read and
write is the one of the library.

* `performed`: what the library does on a transaction, with its faults worded.
* `read_place`, `read_source` and `write_place`: operands.
* `commit_eq`: writing back what is staged, where no address is beyond the buffer.
-/

namespace LongMode

/-- What is said of a fault. -/
def Fault.notice (f : Fault) : Untyped.Notice FaultKind := ⟨f.kind, f.detail⟩

namespace Untyped

open Transaction (storeBytes)

abbrev Executing (α : Type) := Partial (Notice FaultKind) α

section

variable (t : Transaction)

def readRegister (name : String) : Executing Nat := do return t.readView (← viewNamed name)

def writeRegister (name : String) (value : Int) : Executing Transaction := do
  return t.writeView (← viewNamed name) value

def readVector (name : String) : Executing Nat := do return t.readVector (← vectorNamed name)

def writeVector (name : String) (value : Int) : Executing Transaction := do
  return t.writeVector (← vectorNamed name) value

def readFlag (name : String) : Executing Bool := do
  return t.flag (← find (Flag.all.map fun f => (f.name, f)) name)

def checkBounds (address size : Nat) : Executing Unit :=
  if t.machine.Covers address size then .ok ()
  else refused (Fault.outOfBounds ⟨address, size, t.machine.capacity⟩).notice

/-- The latest byte at an address; the buffer has to have one there too. -/
def byteAt (a : Nat) : Executing UInt8 :=
  if a < t.machine.memory.size then .ok (t.byte a) else stuck .missingElement

def readMemory (address size : Nat) : Executing Nat := do
  checkBounds t address size
  return ofLittleEndian (← (List.range' address size).mapM (byteAt t))

def writeMemory (address size : Nat) (value : Int) : Executing Transaction := do
  checkBounds t address size
  return { t with memory := storeBytes address t.memory (← signedBytes size value) }

/-- A register of an address, which may be missing. -/
def readTerm (name : Option String) : Executing Nat :=
  match name with
  | some name => readRegister t name
  | none => .ok 0

def effectiveAddress (base index : Option String) (scale : Nat) (displacement : Int) : Executing Nat := do
  let b ← readTerm t base
  let x ← readTerm t index
  return truncate 64 (displacement + b + (x * scale : Nat))

def read : Operand → Executing Nat
  | .register name w => if w = VectorRegister.bits then readVector t name else readRegister t name
  | .immediate z w => .ok (truncate w z)
  | .memory base index scale displacement w => do
    readMemory t (← effectiveAddress t base index scale displacement) (w / 8)

def write (o : Operand) (value : Int) : Executing Transaction :=
  match o with
  | .register name w => if w = VectorRegister.bits then writeVector t name value else writeRegister t name value
  | .immediate z _ => refused ⟨.invalidOperands, "Cannot write to immediate " ++ Text.signedHex z⟩
  | .memory base index scale displacement w => do
    writeMemory t (← effectiveAddress t base index scale displacement) (w / 8) value

def commit : Executing Machine :=
  if t.memory.all fun p => p.1 < t.machine.memory.size then .ok t.commit else stuck .missingElement

end

variable {α β : Type} {i : LongMode.Instruction} {t : Transaction}

/-- What the library does on a transaction. -/
def performed (i : LongMode.Instruction) (x : Except Stop α) : Executing α :=
  settled (x.mapError fun s => (s.fault i).notice)

theorem performed_bind (x : Except Stop α) (f : α → Except Stop β) :
    performed i (x >>= f) = performed i x >>= fun a => performed i (f a) := by
  cases x <;> rfl

theorem performed_ok (a : α) : performed i (.ok a) = .ok a := rfl

theorem performed_pure (a : α) : performed i (pure a) = pure a := rfl

/-! ### Registers -/

theorem readRegister_name (v : View) : readRegister t v.name = .ok (t.readView v) := by
  rw [readRegister, viewNamed_name]
  rfl

theorem writeRegister_name (v : View) (value : Int) : writeRegister t v.name value = .ok (t.writeView v value) := by
  rw [writeRegister, viewNamed_name]
  rfl

/-! ### Memory -/

private theorem bits_div_eight (w : Width) : w.bits / 8 = w.bytes := by
  unfold Width.bits
  omega

private theorem readTerm_cell (c : Option Cell) :
    readTerm t (c.map Cell.name) = .ok ((c.map t.cell).getD 0 % 2 ^ 64) := by
  cases c with
  | none => rfl
  | some c =>
    have hread : t.readView (.low c .qword) = t.cell c % 2 ^ 64 := by
      simp only [Transaction.readView, View.read, View.shift, View.cell, Nat.pow_zero, Nat.div_one]
      rfl
    exact (readRegister_name (.low c .qword)).trans (congrArg Except.ok hread)

/-- A sum modulo `2 ^ 64` counts its registers modulo `2 ^ 64`. -/
private theorem truncate_sum (z : Int) (b x n : Nat) :
    truncate 64 (z + (b % 2 ^ 64 : Nat) + (x % 2 ^ 64 * n : Nat)) = truncate 64 (z + b + (x * n : Nat)) := by
  unfold truncate
  congr 1
  have hb : ((b % 2 ^ 64 : Nat) : Int) = b % 2 ^ 64 := by simp
  have hx : ((x % 2 ^ 64 * n : Nat) : Int) = (x : Int) % 2 ^ 64 * n := by simp
  have hxn : ((x * n : Nat) : Int) = x * n := by simp
  rw [hb, hx, hxn]
  simp [Int.add_emod, Int.mul_emod]

theorem effectiveAddress_erase (a : Address) :
    effectiveAddress t (a.base.map Cell.name) (a.index.map Cell.name) a.scale.factor a.displacement =
      .ok (t.effectiveAddress a) := by
  have hindex : (a.index.map fun c => t.cell c * a.scale.factor).getD 0 =
      (a.index.map t.cell).getD 0 * a.scale.factor := by
    cases a.index with
    | none => exact (Nat.zero_mul _).symm
    | some c => rfl
  simp only [effectiveAddress, readTerm_cell, ok_bind, Transaction.effectiveAddress, hindex]
  exact congrArg Except.ok (truncate_sum _ _ _ _)

private theorem load_eq (a size : Nat) : t.load a size = (List.range' a size).map t.byte := by
  induction size generalizing a with
  | zero => rfl
  | succ n ih => rw [Transaction.load, ih, List.range'_succ, List.map_cons]

theorem readMemory_eq (h : t.machine.memory.size = t.machine.capacity) (a size : Nat) :
    readMemory t a size = performed i ((t.readInteger a size).mapError .outOfBounds) := by
  unfold readMemory checkBounds Transaction.readInteger
  by_cases hc : t.machine.Covers a size
  · have hbytes : (List.range' a size).mapM (byteAt t) = .ok (t.load a size) := by
      rw [mapM_eq_ok, load_eq, List.map_map]
      refine List.map_congr_left fun b hb => ?_
      have hb := List.mem_range'_1.1 hb
      have hend := hc.2.2
      exact if_pos (by omega)
    rw [if_pos hc, if_pos hc, ok_bind, hbytes]
    rfl
  · rw [if_neg hc, if_neg hc]
    rfl

theorem writeMemory_eq (a size : Nat) (value : Int) :
    writeMemory t a size value = performed i ((t.writeInteger a size value).mapError .outOfBounds) := by
  unfold writeMemory checkBounds Transaction.writeInteger
  by_cases hc : t.machine.Covers a size
  · rw [if_pos hc, if_pos hc, signedBytes_eq]
    rfl
  · rw [if_neg hc, if_neg hc]
    rfl

/-! ### Operands -/

private theorem bits_ne_vector (w : Width) : w.bits ≠ VectorRegister.bits := by cases w <;> decide

theorem write_register (v : View) (value : Int) :
    write t (LongMode.Operand.register v).erase value = .ok (t.writeView v value) :=
  (if_neg (bits_ne_vector v.width)).trans (writeRegister_name v value)

theorem read_register (v : View) : read t (LongMode.Operand.register v).erase = .ok (t.readView v) :=
  (if_neg (bits_ne_vector v.width)).trans (readRegister_name v)

theorem read_source (h : t.machine.memory.size = t.machine.capacity) (s : Source) :
    read t s.operand.erase = performed i (t.read s) := by
  cases s with
  | register v => exact read_register v
  | immediate z n => rfl
  | memory l =>
    show effectiveAddress t _ _ _ _ >>= _ = performed i (t.readLocation l)
    rw [effectiveAddress_erase, ok_bind, bits_div_eight]
    exact readMemory_eq h _ _

theorem read_place (h : t.machine.memory.size = t.machine.capacity) (p : Place) :
    read t p.operand.erase = performed i (t.readPlace p) := by
  cases p with
  | register v => exact read_source h (.register v)
  | memory l => exact read_source h (.memory l)

theorem write_place (p : Place) (value : Int) : write t p.operand.erase value = performed i (t.write p value) := by
  cases p with
  | register v => exact write_register v value
  | memory l =>
    show effectiveAddress t _ _ _ _ >>= _ = performed i (t.writeLocation l value)
    rw [effectiveAddress_erase, ok_bind, bits_div_eight]
    exact writeMemory_eq _ _ _

theorem commit_eq (h : ∀ p ∈ t.memory, p.1 < t.machine.memory.size) : commit t = .ok t.commit :=
  if_pos (List.all_eq_true.2 fun p hp => decide_eq_true (h p hp))

end Untyped

end LongMode

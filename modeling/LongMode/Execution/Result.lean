import LongMode.Execution.Transaction

/-!
# The result of a transaction

Working on a transaction and working on the machine that it results in come to the same.

* `cell_result`, `readVector_result`, `flag_result`, `byte_result` and `readInteger_result`: every read of the
  transaction finds what the result holds.
* `result_writeView`, `result_writeVector`, `result_setFlags` and `result_writeInteger`: every write changes the result
  as it would change a machine, and is refused for the same ranges.

Reads of memory need a buffer as long as the capacity: a byte beyond the buffer would be kept in the transaction only.
-/

namespace LongMode

namespace Transaction

theorem result_start (m : Machine) : (start m).result = m := rfl

@[simp] theorem cell_result (t : Transaction) (c : Cell) : t.result.cell c = t.cell c := by
  simp only [Machine.cell, result, cell]
  induction t.registers with
  | nil => rfl
  | cons p rest ih =>
    rw [List.foldr_cons, Bank.get_set, List.lookup_cons]
    by_cases h : c = p.1
    · simp [h]
    · rw [if_neg fun k => h (Cell.number_inj.1 k).symm, ih, beq_eq_false_iff_ne.2 h]

@[simp] theorem readView_result (t : Transaction) (v : View) : t.result.readView v = t.readView v := by
  simp [Machine.readView, readView]

@[simp] theorem readVector_result (t : Transaction) (x : VectorRegister) :
    t.result.readVector x = t.readVector x := by
  simp only [Machine.readVector, result, readVector]
  induction t.vectors with
  | nil => rfl
  | cons p rest ih =>
    rw [List.foldr_cons, Bank.get_set, List.lookup_cons]
    by_cases h : x = p.1
    · simp [h]
    · rw [if_neg fun k => h (VectorRegister.number_inj.1 k).symm, ih, beq_eq_false_iff_ne.2 h]

@[simp] theorem flag_result (t : Transaction) (f : Flag) : t.result.flags.get f = t.flag f := by
  simp [result, flag]

private theorem size_foldr_setByte (m : Memory) (written : List (Nat × UInt8)) :
    (written.foldr (fun p m => m.setByte p.1 p.2) m).size = m.size := by
  induction written with
  | nil => rfl
  | cons p rest ih => simp [ih]

@[simp] theorem size_result (t : Transaction) : t.result.memory.size = t.machine.memory.size :=
  size_foldr_setByte _ _

theorem byte_result (t : Transaction) {a : Nat} (h : a < t.machine.memory.size) :
    t.result.memory.byte a = t.byte a := by
  simp only [result, byte]
  induction t.memory with
  | nil => rfl
  | cons p rest ih =>
    have hs : (rest.foldr (fun p m => m.setByte p.1 p.2) t.machine.memory).size = t.machine.memory.size :=
      size_foldr_setByte _ _
    rw [List.foldr_cons, Memory.byte_setByte, hs, List.lookup_cons]
    by_cases hp : a = p.1
    · simp [← hp, h]
    · rw [if_neg fun k => hp k.1.symm, ih, beq_eq_false_iff_ne.2 hp]

theorem result_writeView (t : Transaction) (v : View) (value : Int) :
    (t.writeView v value).result = t.result.writeView v value := by
  have h := t.cell_result v.cell
  simp only [Machine.writeView, h]
  rfl

theorem result_writeVector (t : Transaction) (x : VectorRegister) (value : Int) :
    (t.writeVector x value).result = t.result.writeVector x value := rfl

theorem result_setFlags (t : Transaction) (e : FlagEffect) :
    (t.setFlags e).result = { t.result with flags := e.apply t.result.flags } := by
  simp only [result, setFlags, Machine.mk.injEq, true_and, and_true]
  ext f
  simp

theorem load_result (t : Transaction) {a n : Nat} (h : a + n ≤ t.machine.memory.size) :
    t.result.memory.load a n = t.load a n := by
  induction n generalizing a with
  | zero => rfl
  | succ n ih => rw [Memory.load, load, t.byte_result (by omega), ih (by omega)]

theorem readInteger_result (t : Transaction) (h : t.machine.memory.size = t.machine.capacity) (address : Int)
    (size : Nat) : t.result.readInteger address size = t.readInteger address size := by
  unfold Machine.readInteger Machine.readBytes readInteger
  by_cases hc : t.machine.Covers address size
  · rw [if_pos hc, if_pos (show t.result.Covers address size from hc)]
    have h₁ := hc.1
    have h₂ := hc.2.2
    simp only [Except.map, Int.toNat_natCast]
    rw [t.load_result (by omega)]
  · rw [if_neg hc, if_neg (show ¬ t.result.Covers address size from hc)]
    rfl

private theorem foldr_storeBytes (m : Memory) (a : Nat) (written : List (Nat × UInt8)) (bs : List UInt8) :
    (storeBytes a written bs).foldr (fun p m => m.setByte p.1 p.2) m =
      (written.foldr (fun p m => m.setByte p.1 p.2) m).store a bs := by
  induction bs generalizing a written with
  | nil => rfl
  | cons b rest ih => rw [storeBytes, ih]; rfl

theorem result_writeInteger (t : Transaction) (address : Int) (size : Nat) (value : Int) :
    (t.writeInteger address size value).map result = t.result.writeInteger address size value := by
  unfold Machine.writeInteger writeInteger
  by_cases hc : t.machine.Covers address size
  · rw [if_pos hc, if_pos (show t.result.Covers address size from hc)]
    simp only [Except.map, result, foldr_storeBytes]
  · rw [if_neg hc, if_neg (show ¬ t.result.Covers address size from hc)]
    rfl

end Transaction

end LongMode

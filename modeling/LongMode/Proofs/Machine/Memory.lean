import LongMode.Machine.Basic
import LongMode.Proofs.Outcome

/-!
# Ranges of memory

What is read from a range of memory after a store.

* `Memory.byte_store_outside`: a store leaves the bytes around its range alone.
* `Memory.load_store`: what was stored inside memory is read back.
-/

namespace LongMode

theorem ofLittleEndian_lt (bytes : List UInt8) : ofLittleEndian bytes < 256 ^ bytes.length := by
  induction bytes with
  | nil => decide
  | cons b rest ih =>
    have hb := b.toNat_lt
    have hpow : 256 ^ (rest.length + 1) = 256 * 256 ^ rest.length := Nat.pow_succ'
    rw [ofLittleEndian, List.length_cons, hpow]
    omega

namespace Memory

theorem length_load (m : Memory) (a n : Nat) : (m.load a n).length = n := by
  induction n generalizing a with
  | zero => rfl
  | succ n ih => exact congrArg (· + 1) (ih (a + 1))

theorem byte_store_outside (m : Memory) {a b : Nat} {bs : List UInt8} (h : b < a ∨ a + bs.length ≤ b) :
    (m.store a bs).byte b = m.byte b := by
  induction bs generalizing m a with
  | nil => rfl
  | cons c rest ih =>
    rw [List.length_cons] at h
    have hne : ¬ (a = b ∧ a < m.size) := by omega
    rw [store, ih _ (by omega), byte_setByte, if_neg hne]

theorem load_store (m : Memory) {a : Nat} {bs : List UInt8} (h : a + bs.length ≤ m.size) :
    (m.store a bs).load a bs.length = bs := by
  induction bs generalizing m a with
  | nil => rfl
  | cons b rest ih =>
    rw [List.length_cons] at h
    have hrest : a + 1 + rest.length ≤ (m.setByte a b).size := by
      rw [size_setByte]
      omega
    have hfirst : ((m.setByte a b).store (a + 1) rest).byte a = b := by
      rw [byte_store_outside _ (Or.inl (Nat.lt_succ_self a)), byte_setByte, if_pos ⟨rfl, by omega⟩]
    rw [List.length_cons, load, store, hfirst, ih _ hrest]

end Memory

end LongMode

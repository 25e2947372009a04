import Mathlib.Data.Nat.Digits.Defs
import LongMode.Proofs.Machine.Number

/-!
# Memory as a store of bytes

What a range of memory reads after a number has been stored in another range, which may overlap it in any way.

* `Memory.byteAfter` and `Memory.numberAfter`: the byte at an address and the number in a range once a number is stored.
  The bytes of the number replace those of its range, and the other bytes stay.
* `Memory.number_store_littleEndian`: this is the number that is found there.
* `Machine.HasStored` and `Machine.hasStored_writeInteger`: so it is on a machine, where nothing but memory changes.
-/

namespace LongMode

namespace Memory

variable {m : Memory} {a n b k v x : Nat} {value : Int}

/-- The byte at `x` when the low `n` bytes of an integer have been stored from `a` on. -/
def byteAfter (m : Memory) (a n : Nat) (value : Int) (x : Nat) : Nat :=
  if a ≤ x ∧ x < a + n then (value % 2 ^ (8 * n)).toNat / 256 ^ (x - a) % 256 else (m.byte x).toNat

/-- The number in the `k` bytes from `b` on when the low `n` bytes of an integer have been stored from `a` on. -/
def numberAfter (m : Memory) (a n : Nat) (value : Int) (b k : Nat) : Nat :=
  Nat.ofDigits 256 ((List.range' b k).map (m.byteAfter a n value))

theorem number_eq_ofDigits (m : Memory) (a n : Nat) :
    m.number a n = Nat.ofDigits 256 ((List.range' a n).map fun x => (m.byte x).toNat) := by
  induction n generalizing a with
  | zero => rfl
  | succ n ih =>
    have hrest := ih (a + 1)
    rw [number] at hrest ⊢
    rw [load, ofLittleEndian, hrest, List.range'_succ, List.map_cons, Nat.ofDigits_cons]

theorem getElem?_littleEndian (h : k < n) : (littleEndian n v)[k]? = some (UInt8.ofNat (v / 256 ^ k)) := by
  induction n generalizing v k with
  | zero => omega
  | succ n ih =>
    cases k with
    | zero => rw [littleEndian, List.getElem?_cons_zero, Nat.pow_zero, Nat.div_one]
    | succ k =>
      have hrest : k < n := by omega
      rw [littleEndian, List.getElem?_cons_succ, ih hrest, Nat.div_div_eq_div_mul, Nat.pow_succ']

theorem toNat_byte_store (h : a + n ≤ m.size) (value : Int) (x : Nat) :
    ((m.store a (littleEndian n (truncate (8 * n) value))).byte x).toNat = m.byteAfter a n value x := by
  have hlength := length_littleEndian n (truncate (8 * n) value)
  have hend : a + (littleEndian n (truncate (8 * n) value)).length ≤ m.size := by omega
  unfold byteAfter
  by_cases hx : a ≤ x ∧ x < a + n
  · have hk : x - a < n := by omega
    rw [if_pos hx, byte_store _ _ _ _ hend, if_pos hx.1, getElem?_littleEndian hk]
    rfl
  · rw [if_neg hx, byte_store_outside m (by omega)]

theorem number_store_littleEndian (h : a + n ≤ m.size) (value : Int) (b k : Nat) :
    (m.store a (littleEndian n (truncate (8 * n) value))).number b k = m.numberAfter a n value b k := by
  rw [number_eq_ofDigits, numberAfter]
  exact congrArg _ (List.map_congr_left fun x _ => toNat_byte_store h value x)

end Memory

namespace Machine

variable {m m' : Machine} {a : Int} {n : Nat} {value : Int}

/-- The low `n` bytes of an integer have been stored from `a` on: every range inside memory reads them and the bytes
around them, and nothing else has changed. -/
structure HasStored (m : Machine) (a n : Nat) (value : Int) (m' : Machine) : Prop where
  eq : m' = { m with memory := m'.memory }
  size_eq : m'.memory.size = m.memory.size
  readInteger_eq : ∀ (b : Int) (k : Nat), m.Covers b k →
    m'.readInteger b k = .ok (m.memory.numberAfter a n value b.toNat k)

theorem hasStored_writeInteger (hm : m.memory.size = m.capacity) (ha : m.Covers a n) (value : Int) :
    ∃ m', m.writeInteger a n value = .ok m' ∧ m.HasStored a.toNat n value m' := by
  refine ⟨_, if_pos ha, rfl, Memory.size_store _ _ _, ?_⟩
  intro b k hb
  obtain ⟨ha₀, -, ha₁⟩ := ha
  obtain ⟨b, rfl⟩ := Int.eq_ofNat_of_zero_le hb.1
  have hend : a.toNat + n ≤ m.memory.size := by omega
  have hrange : b + k ≤ m.capacity := covers_natCast.1 hb
  exact readInteger_eq_ok.2 ⟨hrange, Memory.number_store_littleEndian hend value b k⟩

end Machine

end LongMode

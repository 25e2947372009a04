import LongMode.Arith.Shift
import LongMode.Proofs.Arith.Bits

/-!
# Shifts bit by bit

A shift by a count is as many shifts by one bit.

* `Shift.step`: one bit further, with the bit that is shifted out.
* `Shift.steps`: a number of such steps, with the bit that the last of them has shifted out.
* `Shift.fst_steps_left`, `fst_steps_right` and `signed_steps_arithmetic`: what the steps make of a word.
* `Shift.reports_apply`: a shift by a reduced count that is not zero gives the word and the carry of its steps, however
  far beyond the width the count goes.
-/

namespace LongMode

namespace Shift

/-- One bit further, and the bit that is shifted out.  An arithmetic shift repeats the top bit. -/
def step (k : Shift) (w value : Nat) : Nat × Bool :=
  match k with
  | left => (value * 2 % 2 ^ w, topBit w value)
  | right => (value / 2, value.testBit 0)
  | arithmetic => (value / 2 + if topBit w value then 2 ^ (w - 1) else 0, value.testBit 0)

/-- The word after `n` steps, and the bit that the last of them has shifted out. -/
def steps (k : Shift) (w value : Nat) : (n : Nat) → Nat × Bool
  | 0 => (value, false)
  | n + 1 => k.step w (k.steps w value n).1

/-- Overflow, from the word, the result and the carry. -/
def overflow (k : Shift) (w value result : Nat) (carry : Bool) : Bool :=
  match k with
  | left => topBit w result != carry
  | right => topBit w value
  | arithmetic => false

/-- A result that comes of `n` steps, with all flags. -/
structure Reports (k : Shift) (w value n : Nat) (r : Flagged) : Prop where
  value_eq : r.value = (k.steps w value n).1
  describes : r.flags.Describes w r.value
  carry_eq : r.flags.carry = some (k.steps w value n).2
  overflow_eq : r.flags.overflow = some (k.overflow w value r.value (k.steps w value n).2)
  adjust_eq : r.flags.adjust = some false

variable {w value n : Nat}

/-! ### The word after some steps -/

theorem fst_steps_left (h : value < 2 ^ w) (n : Nat) : (left.steps w value n).1 = value * 2 ^ n % 2 ^ w := by
  induction n with
  | zero => rw [Nat.pow_zero, Nat.mul_one, Nat.mod_eq_of_lt h, steps]
  | succ n ih =>
    show (left.steps w value n).1 * 2 % 2 ^ w = _
    rw [ih, Nat.mod_mul_mod, Nat.pow_succ, Nat.mul_assoc]

theorem fst_steps_right (w value n : Nat) : (right.steps w value n).1 = value / 2 ^ n := by
  induction n with
  | zero => rw [Nat.pow_zero, Nat.div_one, steps]
  | succ n ih =>
    show (right.steps w value n).1 / 2 = _
    rw [ih, Nat.div_div_eq_div_mul, Nat.pow_succ]

/-- One arithmetic step halves the signed reading. -/
private theorem step_arithmetic (hw : 0 < w) (h : value < 2 ^ w) :
    (arithmetic.step w value).1 < 2 ^ w ∧ signed w (arithmetic.step w value).1 = signed w value / 2 := by
  have hdouble := two_pow_eq_double hw
  have hcast : ((2 ^ w : Nat) : Int) = 2 ^ w := by simp
  have hstep : (arithmetic.step w value).1 = value / 2 + if 2 ^ (w - 1) ≤ value then 2 ^ (w - 1) else 0 := by
    simp only [step, topBit_eq hw h, decide_eq_true_eq]
  have hlt : (arithmetic.step w value).1 < 2 ^ w := by
    rw [hstep]
    split <;> omega
  refine ⟨hlt, ?_⟩
  rw [signed_natCast hlt, signed_natCast h, hstep]
  split <;> split <;> split <;> omega

theorem signed_steps_arithmetic (hw : 0 < w) (h : value < 2 ^ w) (n : Nat) :
    (arithmetic.steps w value n).1 < 2 ^ w ∧
      signed w (arithmetic.steps w value n).1 = signed w value / 2 ^ n := by
  induction n with
  | zero => exact ⟨h, by rw [Int.pow_zero, Int.ediv_one, steps]⟩
  | succ n ih =>
    obtain ⟨hlt, hsigned⟩ := ih
    have hnext := step_arithmetic hw hlt
    rw [hsigned, Int.ediv_ediv_of_nonneg (Int.le_of_lt (Int.pow_pos (by decide))), ← Int.pow_succ] at hnext
    exact hnext

/-! ### Shifts -/

/-- The lowest bit of a word is that of its signed reading. -/
private theorem testBit_zero_signed (hw : 0 < w) (h : value < 2 ^ w) :
    value.testBit 0 = (signed w value % 2 == 1) := by
  have hdouble := two_pow_eq_double hw
  have hcast : ((2 ^ w : Nat) : Int) = 2 ^ w := by simp
  rw [Nat.testBit_zero, signed_natCast h, Bool.eq_iff_iff, decide_eq_true_eq, beq_iff_eq]
  split <;> omega

/-- A shift by a count is as many steps. -/
theorem move_eq_steps (k : Shift) (hw : 0 < w) (h : value < 2 ^ w) (n : Nat) :
    (k.move w value (n + 1)).1 = (k.steps w value (n + 1)).1 ∧
      (k.move w value (n + 1)).2.1 = (k.steps w value (n + 1)).2 ∧
      (k.move w value (n + 1)).2.2 =
        k.overflow w value (k.steps w value (n + 1)).1 (k.steps w value (n + 1)).2 := by
  cases k with
  | left =>
    have hresult := fst_steps_left h (n + 1)
    have hcarry : (left.steps w value (n + 1)).2 = (n + 1 ≤ w && value.testBit (w - (n + 1))) := by
      show topBit w (left.steps w value n).1 = _
      rw [fst_steps_left h, topBit, Nat.testBit_mod_two_pow, Nat.testBit_mul_two_pow, decide_eq_true (by omega),
        Bool.true_and]
      have hrange : (w - 1 ≥ n) = (n + 1 ≤ w) := propext (by omega)
      have hplace : w - 1 - n = w - (n + 1) := by omega
      simp only [hrange, hplace]
    rw [hresult, hcarry]
    exact ⟨rfl, rfl, rfl⟩
  | right =>
    have hresult := fst_steps_right w value (n + 1)
    have hcarry : (right.steps w value (n + 1)).2 = value.testBit n := by
      show (right.steps w value n).1.testBit 0 = _
      rw [fst_steps_right, Nat.testBit_div_two_pow, Nat.zero_add]
    rw [hresult, hcarry]
    exact ⟨rfl, rfl, rfl⟩
  | arithmetic =>
    obtain ⟨hlt, hresult⟩ := signed_steps_arithmetic hw h (n + 1)
    obtain ⟨hbefore, hsigned⟩ := signed_steps_arithmetic hw h n
    refine ⟨?_, ?_, rfl⟩
    · show truncate w (signed w value / 2 ^ (n + 1)) = _
      rw [← hresult, truncate_signed, truncate_of_lt hlt]
    · show (signed w value / 2 ^ n % 2 == 1) = (arithmetic.steps w value n).1.testBit 0
      rw [testBit_zero_signed hw hbefore, hsigned]

private theorem fst_step_lt (k : Shift) (hw : 0 < w) (h : value < 2 ^ w) : (k.step w value).1 < 2 ^ w := by
  cases k with
  | left => exact Nat.mod_lt _ (Nat.two_pow_pos w)
  | right => exact Nat.lt_of_le_of_lt (Nat.div_le_self value 2) h
  | arithmetic => exact (step_arithmetic hw h).1

theorem fst_steps_lt (k : Shift) (hw : 0 < w) (h : value < 2 ^ w) (n : Nat) : (k.steps w value n).1 < 2 ^ w := by
  induction n with
  | zero => exact h
  | succ n ih => exact k.fst_step_lt hw ih

theorem reports_apply (k : Shift) (hw : 0 < w) (h : value < 2 ^ w) {count : Nat} (hn : maskedCount w count ≠ 0) :
    k.Reports w value (maskedCount w count) (k.apply w value count) := by
  obtain ⟨n, hcount⟩ : ∃ n, maskedCount w count = n + 1 := ⟨maskedCount w count - 1, by omega⟩
  obtain ⟨hresult, hcarry, hoverflow⟩ := k.move_eq_steps hw h n
  have hdescribes := describes_resultFlags hw (k.fst_steps_lt hw h (n + 1))
  rw [apply]
  dsimp only
  rw [if_neg hn, hcount, hresult, hcarry, hoverflow]
  exact ⟨rfl, ⟨hdescribes.zero_eq, hdescribes.sign_eq, hdescribes.parity_eq⟩, rfl, rfl, rfl⟩

end Shift

end LongMode

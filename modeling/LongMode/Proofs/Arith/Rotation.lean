import Mathlib.Dynamics.PeriodicPts.Defs
import LongMode.Arith.Shift
import LongMode.Proofs.Arith.Bits

/-!
# Rotations bit by bit

A rotation by a count is as many rotations by one bit.

* `Rotation.step`: one bit further.  The two directions undo each other (`step_opposite_step`), and neither loses a bit
  (`setBits_step`).
* `Rotation.turn_eq_iterate`: so many bits that change places at once are so many steps, up to the width.
* `isPeriodicPt_step`: after the whole width the word is back, which is why the count may be reduced by the width.
* `Rotation.turns`: a rotation by any count is so many steps, whether or not the count exceeds the width, and the same
  rotation the other way undoes it.
-/

namespace LongMode

namespace Rotation

open Function

/-- The bit at one end goes round to the other, and all others move by one. -/
def step (k : Rotation) (w value : Nat) : Nat :=
  match k with
  | left => value * 2 % 2 ^ w + value / 2 ^ (w - 1)
  | right => value / 2 + value % 2 * 2 ^ (w - 1)

def opposite : Rotation → Rotation
  | left => right
  | right => left

/-- Carry, from the result: its lowest bit, or its top bit. -/
def carry (k : Rotation) (w result : Nat) : Bool :=
  match k with
  | left => result.testBit 0
  | right => result.testBit (w - 1)

/-- Overflow, from the result: whether its top bit differs from carry, or from the bit next to it. -/
def overflow (k : Rotation) (w result : Nat) : Bool :=
  match k with
  | left => result.testBit (w - 1) != result.testBit 0
  | right => result.testBit (w - 1) != result.testBit (w - 2)

/-- A result that comes of `n` steps, with carry and overflow and no other flag. -/
structure Reports (k : Rotation) (w value n : Nat) (r : Flagged) : Prop where
  value_eq : r.value = (k.step w)^[n] value
  flags_eq : r.flags = { FlagEffect.none with
    carry := some (k.carry w r.value), overflow := some (k.overflow w r.value) }

variable {w value n : Nat}

/-! ### One step -/

/-- A step to the left doubles all below the top bit and puts that at the low end. -/
private theorem step_left_parts (hw : 0 < w) (h : value < 2 ^ w) :
    left.step w value / 2 = value % 2 ^ (w - 1) ∧ left.step w value % 2 = value / 2 ^ (w - 1) := by
  have hdouble := two_pow_eq_double hw
  have hhigh : value / 2 ^ (w - 1) < 2 := Nat.div_lt_of_lt_mul (by omega)
  have hstep : left.step w value = 2 * (value % 2 ^ (w - 1)) + value / 2 ^ (w - 1) := by
    rw [step, hdouble, Nat.mul_comm value, Nat.mul_mod_mul_left]
  constructor
  · rw [hstep, Nat.mul_add_div (by decide), Nat.div_eq_of_lt hhigh, Nat.add_zero]
  · rw [hstep, Nat.mul_add_mod, Nat.mod_eq_of_lt hhigh]

theorem step_lt (k : Rotation) (hw : 0 < w) (h : value < 2 ^ w) : k.step w value < 2 ^ w := by
  have hdouble := two_pow_eq_double hw
  cases k with
  | left =>
    obtain ⟨hhalf, -⟩ := step_left_parts hw h
    have hlow := Nat.mod_lt value (Nat.two_pow_pos (w - 1))
    omega
  | right =>
    show value / 2 + value % 2 * 2 ^ (w - 1) < 2 ^ w
    rcases Nat.mod_two_eq_zero_or_one value with hlow | hlow <;> rw [hlow] <;> omega

/-- A step the other way undoes a step. -/
theorem step_opposite_step (k : Rotation) (hw : 0 < w) (h : value < 2 ^ w) :
    k.opposite.step w (k.step w value) = value := by
  cases k with
  | left =>
    obtain ⟨hhalf, hlow⟩ := step_left_parts hw h
    show left.step w value / 2 + left.step w value % 2 * 2 ^ (w - 1) = value
    rw [hhalf, hlow, Nat.add_comm, Nat.div_add_mod']
  | right =>
    obtain ⟨hhalf, hlow⟩ := step_left_parts hw (right.step_lt hw h)
    have hsmall : value / 2 < 2 ^ (w - 1) := by
      have hdouble := two_pow_eq_double hw
      omega
    have hrest : right.step w value % 2 ^ (w - 1) = value / 2 := by
      rw [step, Nat.add_mul_mod_self_right, Nat.mod_eq_of_lt hsmall]
    have htop : right.step w value / 2 ^ (w - 1) = value % 2 := by
      rw [step, Nat.add_mul_div_right _ _ (Nat.two_pow_pos _), Nat.div_eq_of_lt hsmall, Nat.zero_add]
    show left.step w (right.step w value) = value
    omega

private theorem setBits_step_left (hw : 0 < w) (h : value < 2 ^ w) :
    setBits (left.step w value) = setBits value := by
  obtain ⟨hhalf, hlow⟩ := step_left_parts hw h
  have htop : value < 2 ^ (w - 1 + 1) := by rwa [Nat.sub_add_cancel hw]
  rw [setBits_half, hhalf, hlow, setBits_succ htop]

theorem setBits_step (k : Rotation) (hw : 0 < w) (h : value < 2 ^ w) : setBits (k.step w value) = setBits value := by
  cases k with
  | left => exact setBits_step_left hw h
  | right =>
    -- the step back loses none, and it gives the word itself
    have hback : left.step w (right.step w value) = value := right.step_opposite_step hw h
    have hkept := setBits_step_left hw (right.step_lt hw h)
    rw [hback] at hkept
    exact hkept.symm

/-! ### Any number of steps -/

theorem iterate_step_lt (k : Rotation) (hw : 0 < w) (h : value < 2 ^ w) (n : Nat) : (k.step w)^[n] value < 2 ^ w := by
  induction n with
  | zero => exact h
  | succ n ih =>
    rw [iterate_succ_apply']
    exact k.step_lt hw ih

theorem setBits_iterate_step (k : Rotation) (hw : 0 < w) (h : value < 2 ^ w) (n : Nat) :
    setBits ((k.step w)^[n] value) = setBits value := by
  induction n with
  | zero => rfl
  | succ n ih => rw [iterate_succ_apply', k.setBits_step hw (k.iterate_step_lt hw h n), ih]

theorem iterate_opposite_iterate (k : Rotation) (hw : 0 < w) (h : value < 2 ^ w) (n : Nat) :
    (k.opposite.step w)^[n] ((k.step w)^[n] value) = value := by
  induction n with
  | zero => rfl
  | succ n ih =>
    have hlast := k.step_opposite_step hw (k.iterate_step_lt hw h n)
    rw [iterate_succ_apply, iterate_succ_apply', hlast, ih]

/-! ### Bits that change places at once -/

private theorem testBit_step_left (hw : 0 < w) (h : value < 2 ^ w) (i : Nat) :
    (left.step w value).testBit i = (decide (i < w) && value.testBit (if i = 0 then w - 1 else i - 1)) := by
  obtain ⟨hhalf, hlow⟩ := step_left_parts hw h
  cases i with
  | zero =>
    have hbit : left.step w value % 2 = value / 2 ^ (w - 1) % 2 := by omega
    rw [Nat.testBit_zero, hbit, ← Nat.testBit_zero, Nat.testBit_div_two_pow, decide_eq_true hw, Bool.true_and,
      if_pos rfl, Nat.zero_add]
  | succ i =>
    have hrange : decide (i < w - 1) = decide (i + 1 < w) := decide_eq_decide.2 (by omega)
    rw [Nat.testBit_succ, hhalf, Nat.testBit_mod_two_pow, if_neg (Nat.succ_ne_zero i), Nat.add_sub_cancel, hrange]

/-- A word has no bit at or above its width. -/
private theorem testBit_beyond (h : value < 2 ^ w) {i : Nat} (hi : w ≤ i) : value.testBit i = false :=
  Nat.testBit_lt_two_pow (Nat.lt_of_lt_of_le h (Nat.pow_le_pow_right (by decide) hi))

private theorem testBit_turn_left (h : value < 2 ^ w) (n i : Nat) :
    (left.turn w value n).testBit i =
      (decide (i < w) && value.testBit (if i < n then i + (w - n) else i - n)) := by
  rw [turn, Nat.testBit_mod_two_pow, Nat.testBit_or, Nat.testBit_mul_two_pow, Nat.testBit_div_two_pow]
  by_cases hi : i < n
  · rw [if_pos hi, decide_eq_false (show ¬ n ≤ i by omega), Bool.false_and, Bool.false_or]
  · rw [if_neg hi, testBit_beyond h (show w ≤ i + (w - n) by omega), decide_eq_true (show n ≤ i by omega),
      Bool.true_and, Bool.or_false]

/-- Turning by nothing, or by the whole width, leaves every bit in its place. -/
private theorem turn_left_whole (h : value < 2 ^ w) (hn : n = 0 ∨ n = w) : left.turn w value n = value := by
  refine Nat.eq_of_testBit_eq fun i => ?_
  rw [testBit_turn_left h]
  by_cases hi : i < w
  · have hplace : (if i < n then i + (w - n) else i - n) = i := by split <;> omega
    rw [decide_eq_true hi, Bool.true_and, hplace]
  · rw [decide_eq_false hi, Bool.false_and, testBit_beyond h (Nat.le_of_not_lt hi)]

private theorem turn_left_succ (h : value < 2 ^ w) (hn : n < w) :
    left.turn w value (n + 1) = left.step w (left.turn w value n) := by
  have hlt : left.turn w value n < 2 ^ w := Nat.mod_lt _ (Nat.two_pow_pos w)
  refine Nat.eq_of_testBit_eq fun i => ?_
  rw [testBit_step_left (by omega) hlt, testBit_turn_left h, testBit_turn_left h]
  by_cases hi : i < w
  · have hbefore : (if i = 0 then w - 1 else i - 1) < w := by split <;> omega
    have hplace : (if i < n + 1 then i + (w - (n + 1)) else i - (n + 1)) =
        if (if i = 0 then w - 1 else i - 1) < n then (if i = 0 then w - 1 else i - 1) + (w - n)
        else (if i = 0 then w - 1 else i - 1) - n := by
      split <;> split <;> split <;> omega
    rw [decide_eq_true hi, decide_eq_true hbefore, Bool.true_and, Bool.true_and, Bool.true_and, hplace]
  · rw [decide_eq_false hi, Bool.false_and, Bool.false_and]

private theorem turn_left_eq_iterate (h : value < 2 ^ w) (hn : n ≤ w) :
    left.turn w value n = (left.step w)^[n] value := by
  induction n with
  | zero => exact turn_left_whole h (Or.inl rfl)
  | succ n ih => rw [turn_left_succ h (by omega), ih (by omega), iterate_succ_apply']

/-- After as many steps as the word is wide, each bit is back. -/
theorem isPeriodicPt_step (k : Rotation) (hw : 0 < w) (h : value < 2 ^ w) : IsPeriodicPt (k.step w) w value := by
  have hleft : (left.step w)^[w] value = value := by
    rw [← turn_left_eq_iterate h (Nat.le_refl w), turn_left_whole h (Or.inr rfl)]
  cases k with
  | left => exact hleft
  | right =>
    have hback : (right.step w)^[w] ((left.step w)^[w] value) = value := left.iterate_opposite_iterate hw h w
    rw [hleft] at hback
    exact hback

theorem turn_eq_iterate (k : Rotation) (hw : 0 < w) (h : value < 2 ^ w) (hn : n ≤ w) :
    k.turn w value n = (k.step w)^[n] value := by
  cases k with
  | left => exact turn_left_eq_iterate h hn
  | right =>
    -- turning to the right by some bits is turning to the left by the others, so that both make up the whole width
    have hlt := right.iterate_step_lt hw h n
    have hback : (left.step w)^[n] ((right.step w)^[n] value) = value := right.iterate_opposite_iterate hw h n
    have hwhole : (left.step w)^[w] ((right.step w)^[n] value) = (right.step w)^[n] value :=
      left.isPeriodicPt_step hw hlt
    calc right.turn w value n
        = left.turn w value (w - n) := by rw [turn, turn, Nat.sub_sub_self hn, Nat.or_comm]
      _ = (left.step w)^[w - n] value := turn_left_eq_iterate h (Nat.sub_le w n)
      _ = (left.step w)^[w - n] ((left.step w)^[n] ((right.step w)^[n] value)) := by rw [hback]
      _ = (left.step w)^[w] ((right.step w)^[n] value) := by rw [← iterate_add_apply, Nat.sub_add_cancel hn]
      _ = (right.step w)^[n] value := hwhole

/-! ### Rotations by any count -/

theorem value_apply (k : Rotation) (hw : 0 < w) (h : value < 2 ^ w) (count : Nat) :
    (k.apply w value count).value = (k.step w)^[maskedCount w count] value := by
  have hreduced := (k.isPeriodicPt_step hw h).iterate_mod_apply (maskedCount w count)
  have hturn := k.turn_eq_iterate hw h (Nat.le_of_lt (Nat.mod_lt (maskedCount w count) hw))
  rw [apply]
  by_cases hn : maskedCount w count = 0
  · rw [if_pos hn, hn, iterate_zero_apply]
  · rw [if_neg hn, ← hreduced]
    by_cases hwhole : maskedCount w count % w = 0
    · simp only [if_pos hwhole]
      rw [hwhole, iterate_zero_apply]
    · simp only [if_neg hwhole]
      exact hturn

theorem reports_apply (k : Rotation) (hw : 0 < w) (h : value < 2 ^ w) {count : Nat} (hn : maskedCount w count ≠ 0) :
    k.Reports w value (maskedCount w count) (k.apply w value count) := by
  refine ⟨k.value_apply hw h count, ?_⟩
  rw [apply, if_neg hn]
  cases k <;> rfl

/-- A rotation of a word by a count of which `n` is left: its steps and its flags, the rotation back, and the bits. -/
theorem turns (k : Rotation) {count : Nat} (hw : 0 < w) (h : value < 2 ^ w)
    (hn : n = count % if w = 64 then 64 else 32) :
    (n ≠ 0 → k.Reports w value n (k.apply w value count)) ∧
      (k.apply w value count).value < 2 ^ w ∧
      (k.opposite.apply w (k.apply w value count).value count).value = value ∧
      setBits (k.apply w value count).value = setBits value := by
  obtain rfl : maskedCount w count = n := hn.symm
  have hlt := k.iterate_step_lt hw h (maskedCount w count)
  refine ⟨fun hn => k.reports_apply hw h hn, ?_, ?_, ?_⟩
  · rw [k.value_apply hw h]
    exact hlt
  · rw [k.value_apply hw h, k.opposite.value_apply hw hlt]
    exact k.iterate_opposite_iterate hw h _
  · rw [k.value_apply hw h]
    exact k.setBits_iterate_step hw h _

/-- A byte turned by its width, as the count 40 says: the byte itself, but with both flags. -/
theorem turns_by_width : left.Reports 8 0x81 8 (left.apply 8 0x81 40) ∧
    left.apply 8 0x81 40 = ⟨0x81, { FlagEffect.none with carry := some true, overflow := some false }⟩ := by
  obtain ⟨hreports, -⟩ := @turns 8 0x81 8 left 40 (by decide) (by decide) rfl
  exact ⟨hreports (by decide), rfl⟩

end Rotation

end LongMode

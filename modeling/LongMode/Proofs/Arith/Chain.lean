import Mathlib.Tactic.Ring
import LongMode.Proofs.Arith.Sum

/-!
# Sums and differences in parts

Long numbers are added and subtracted from their low ends up; what is carried out of the lower part goes into the
upper one.

* `Chain.total` and `Chain.carries`: the sum or the difference of two numbers and a carry, and whether it leaves a
  width.
* `value_combine` and `carry_combine`: the addition or subtraction of words gives the total reduced to the width, and
  its carry tells whether anything has been lost.
* `truncate_total_parts` and `carries_parts`: numbers in two parts are combined part by part.
-/

namespace LongMode

/-- What is done with two numbers, part by part. -/
inductive Chain
  | sum | difference
  deriving DecidableEq, Repr

namespace Chain

/-- Two words of a width and what is carried into them. -/
def combine : Chain → Nat → Nat → Nat → Nat → Flagged
  | sum => Word.add
  | difference => Word.sub

/-- Two numbers and what is carried into them. -/
def total : Chain → Nat → Nat → Nat → Int
  | sum, x, y, c => x + y + c
  | difference, x, y, c => x - y - c

/-- The total is no number of `n` bits, so that something is carried out of them or borrowed into them. -/
def carries (k : Chain) (n x y c : Nat) : Bool := decide (k.total x y c < 0 ∨ 2 ^ n ≤ k.total x y c)

variable {w n x y x' y' c : Nat}

/-! ### One word -/

theorem value_combine (k : Chain) (w x y c : Nat) : (k.combine w x y c).value = truncate w (k.total x y c) := by
  cases k with
  | sum =>
    have hcast : ((x + y + c : Nat) : Int) = x + y + c := by simp
    have hmod : ((x + y + c) % 2 ^ w : Nat) = truncate w ((x + y + c : Nat) : Int) := by
      have hword : (((x + y + c) % 2 ^ w : Nat) : Int) = ((x + y + c : Nat) : Int) % 2 ^ w := by simp
      rw [truncate, ← hword, Int.toNat_natCast]
    exact hmod.trans (congrArg (truncate w) hcast)
  | difference => rfl

theorem carry_combine (k : Chain) (hx : x < 2 ^ w) :
    (k.combine w x y c).flags.carry = some (k.carries w x y c) := by
  have hword : ((2 ^ w : Nat) : Int) = 2 ^ w := by simp
  cases k with
  | sum =>
    refine congrArg some (decide_eq_decide.2 ?_)
    show 2 ^ w ≤ x + y + c ↔ (x + y + c : Int) < 0 ∨ 2 ^ w ≤ (x + y + c : Int)
    omega
  | difference =>
    refine congrArg some (decide_eq_decide.2 ?_)
    show (x - y - c : Int) < 0 ↔ (x - y - c : Int) < 0 ∨ 2 ^ w ≤ (x - y - c : Int)
    omega

/-! ### Two parts -/

/-- The lower parts wrap around once where they carry, which counts one in the upper parts. -/
private theorem total_parts (k : Chain) (x' y' : Nat) (hx : x < 2 ^ w) (hy : y < 2 ^ w) (hc : c ≤ 1) :
    k.total (x + 2 ^ w * x') (y + 2 ^ w * y') c =
      truncate w (k.total x y c) + 2 ^ w * k.total x' y' (k.carries w x y c).toNat := by
  have hlow := natCast_truncate w (k.total x y c)
  obtain ⟨b, hb⟩ : ∃ b : Nat, 2 ^ w = b := ⟨_, rfl⟩
  have hword : (2 : Int) ^ w = b := by rw [← hb]; simp
  rw [hb] at hx hy
  rw [hword] at hlow
  cases k with
  | sum =>
    have hwrap : ((x : Int) + y + c) % b = x + y + c - b * (sum.carries w x y c).toNat := by
      rw [carries, hword, total]
      by_cases hcarry : (b : Int) ≤ x + y + c
      · rw [decide_eq_true (Or.inr hcarry), ← Int.sub_emod_right, Int.emod_eq_of_lt (by omega) (by omega)]
        simp
      · rw [decide_eq_false (by omega), Int.emod_eq_of_lt (by omega) (by omega)]
        simp
    rw [hlow, hword, hb, total, total, total, hwrap]
    push_cast
    ring
  | difference =>
    have hwrap : ((x : Int) - y - c) % b = x - y - c + b * (difference.carries w x y c).toNat := by
      rw [carries, hword, total]
      by_cases hcarry : (x : Int) - y - c < 0
      · rw [decide_eq_true (Or.inl hcarry), ← Int.add_emod_right, Int.emod_eq_of_lt (by omega) (by omega)]
        simp
      · rw [decide_eq_false (by omega), Int.emod_eq_of_lt (by omega) (by omega)]
        simp
    rw [hlow, hword, hb, total, total, total, hwrap]
    push_cast
    ring

private theorem truncate_add {r : Nat} (hr : r < 2 ^ w) (t : Int) :
    truncate (w + n) (r + 2 ^ w * t) = r + 2 ^ w * truncate n t := by
  have hcast : ((2 ^ w : Nat) : Int) = 2 ^ w := by simp
  have hupper : (truncate n t : Int) = t % 2 ^ n := natCast_truncate n t
  have hlt := truncate_lt n t
  have hfit : r + 2 ^ w * truncate n t < 2 ^ (w + n) := by
    have hnext : 2 ^ w * (truncate n t + 1) ≤ 2 ^ w * 2 ^ n := Nat.mul_le_mul_left _ hlt
    rw [Nat.mul_succ] at hnext
    rw [Nat.pow_add]
    omega
  have hsame : ((r : Int) + 2 ^ w * t) % 2 ^ (w + n) = ((r + 2 ^ w * truncate n t : Nat) : Int) % 2 ^ (w + n) := by
    have hparts : (r : Int) + 2 ^ w * t = ((r + 2 ^ w * truncate n t : Nat) : Int) + 2 ^ (w + n) * (t / 2 ^ n) := by
      push_cast [hupper]
      rw [Int.emod_def, Int.pow_add]
      ring
    rw [hparts, Int.add_mul_emod_self_left]
  rw [truncate, hsame]
  exact truncate_of_lt hfit

/-- A total in two parts, reduced to their widths. -/
theorem truncate_total_parts (k : Chain) (hx : x < 2 ^ w) (hy : y < 2 ^ w) (hc : c ≤ 1) :
    truncate (w + n) (k.total (x + 2 ^ w * x') (y + 2 ^ w * y') c) =
      truncate w (k.total x y c) + 2 ^ w * truncate n (k.total x' y' (k.carries w x y c).toNat) := by
  rw [total_parts k x' y' hx hy hc]
  exact truncate_add (truncate_lt w _) _

/-- What is carried out of both parts is carried out of the upper one. -/
theorem carries_parts (k : Chain) (hx : x < 2 ^ w) (hy : y < 2 ^ w) (hc : c ≤ 1) :
    k.carries (w + n) (x + 2 ^ w * x') (y + 2 ^ w * y') c = k.carries n x' y' (k.carries w x y c).toNat := by
  have hparts := total_parts k x' y' hx hy hc
  have hlow := truncate_lt w (k.total x y c)
  have hcast : ((2 ^ w : Nat) : Int) = 2 ^ w := by simp
  have hpos : (0 : Int) < 2 ^ w := Int.pow_pos (by decide)
  obtain ⟨c', hc'⟩ : ∃ c', (k.carries w x y c).toNat = c' := ⟨_, rfl⟩
  rw [hc'] at hparts ⊢
  have hdiv : k.total (x + 2 ^ w * x') (y + 2 ^ w * y') c / 2 ^ w = k.total x' y' c' := by
    rw [hparts, Int.add_mul_ediv_left _ _ (Int.ne_of_gt hpos), Int.ediv_eq_zero_of_lt (by omega) (by omega),
      Int.zero_add]
  have hle : ∀ q, q * 2 ^ w ≤ k.total (x + 2 ^ w * x') (y + 2 ^ w * y') c ↔ q ≤ k.total x' y' c' := by
    intro q
    rw [← hdiv, Int.le_ediv_iff_mul_le hpos]
  have hneg := hle 0
  have hlarge := hle (2 ^ n)
  rw [Int.zero_mul] at hneg
  rw [Int.mul_comm, ← Int.pow_add] at hlarge
  refine decide_eq_decide.2 (or_congr ?_ hlarge)
  rw [← Int.not_le, ← Int.not_le, hneg]

end Chain

end LongMode

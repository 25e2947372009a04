import Mathlib.Data.Nat.Digits.Defs
import LongMode.Arith.Sum
import LongMode.Proofs.Arith.Signed

/-!
# The bits of a word

* `setBits`: how many binary digits of a number are 1.  Below a width they are counted by their positions
  (`setBits_mod_two_pow`), and the top one may be counted apart (`setBits_succ`).
* `topBit_eq`: the top bit of a word tells whether the word lies in the upper half of its range.
* `signed_spread`: in front of a word, copies of its top bit leave its reading as it is.
* `FlagEffect.Describes`: zero, sign and parity are those of a word.  They are after every operation that takes them
  from its result (`describes_resultFlags`).
-/

namespace LongMode

variable {w n : Nat}

/-- The number of binary digits that are 1. -/
def setBits (n : Nat) : Nat := (Nat.digits 2 n).count 1

theorem setBits_half (n : Nat) : setBits n = n % 2 + setBits (n / 2) := by
  rcases Nat.eq_zero_or_pos n with rfl | hn
  · rfl
  · have hmod := Nat.mod_two_eq_zero_or_one n
    rw [setBits, Nat.digits_def' (by decide) hn, List.count_cons, Nat.add_comm]
    rcases hmod with h | h <;> simp [h, setBits]

theorem setBits_mod_two_pow (n w : Nat) : setBits (n % 2 ^ w) = (List.range w).countP n.testBit := by
  induction w generalizing n with
  | zero => rw [Nat.pow_zero, Nat.mod_one, List.range_zero, List.countP_nil, setBits, Nat.digits_zero, List.count_nil]
  | succ w ih =>
    have hlow : n % 2 ^ (w + 1) % 2 = n % 2 := Nat.mod_mod_of_dvd n (Nat.pow_dvd_pow 2 (show 1 ≤ w + 1 by omega))
    have hhalf : n % 2 ^ (w + 1) / 2 = n / 2 % 2 ^ w := by rw [Nat.pow_succ', Nat.mod_mul_right_div_self]
    have hrest : n.testBit ∘ Nat.succ = (n / 2).testBit := funext fun i => Nat.testBit_succ n i
    rw [setBits_half, hlow, hhalf, ih, List.range_succ_eq_map, List.countP_cons, List.countP_map, hrest,
      Nat.testBit_zero, Nat.add_comm]
    rcases Nat.mod_two_eq_zero_or_one n with hn | hn <;> simp [hn]

theorem setBits_eq_countP (h : n < 2 ^ w) : setBits n = (List.range w).countP n.testBit := by
  rw [← setBits_mod_two_pow, Nat.mod_eq_of_lt h]

/-- A digit at the top is counted apart. -/
theorem setBits_succ (h : n < 2 ^ (w + 1)) : setBits n = n / 2 ^ w + setBits (n % 2 ^ w) := by
  rw [setBits_eq_countP h, setBits_mod_two_pow, List.range_succ, List.countP_append, List.countP_singleton,
    Nat.add_comm]
  rcases Nat.lt_or_ge n (2 ^ w) with hn | hn
  · rw [Nat.testBit_lt_two_pow hn, Nat.div_eq_of_lt hn]
    rfl
  · have hone : n / 2 ^ w = 1 := by
      rw [Nat.div_eq_iff (Nat.two_pow_pos w)]
      omega
    rw [Nat.testBit_of_two_pow_le_and_two_pow_add_one_gt hn h, hone]
    rfl

theorem evenParity_eq (n : Nat) : evenParity n = decide (setBits (n % 2 ^ 8) % 2 = 0) := by
  rw [setBits_mod_two_pow, evenParity, Bool.eq_iff_iff, beq_iff_eq, decide_eq_true_eq]

theorem two_pow_eq_double (hw : 0 < w) : 2 ^ w = 2 * 2 ^ (w - 1) := by
  obtain ⟨k, rfl⟩ : ∃ k, w = k + 1 := ⟨w - 1, by omega⟩
  rw [Nat.pow_succ, Nat.mul_comm, Nat.add_sub_cancel]

theorem topBit_eq (hw : 0 < w) (h : n < 2 ^ w) : topBit w n = decide (2 ^ (w - 1) ≤ n) := by
  obtain ⟨k, rfl⟩ : ∃ k, w = k + 1 := ⟨w - 1, by omega⟩
  rw [topBit, Nat.add_sub_cancel]
  rcases Nat.lt_or_ge n (2 ^ k) with hn | hn
  · rw [Nat.testBit_lt_two_pow hn, decide_eq_false (by omega)]
  · rw [Nat.testBit_of_two_pow_le_and_two_pow_add_one_gt hn h, decide_eq_true hn]

theorem signed_spread (hw : 0 < w) (h : n < 2 ^ w) :
    signed (2 * w) (((if topBit w n then 2 ^ w - 1 else 0) * 2 ^ w + n : Nat) : Int) = signed w n := by
  have hpos := Nat.two_pow_pos w
  have hcast : ((2 ^ w : Nat) : Int) = 2 ^ w := by simp
  have hhalf := two_pow_eq_double hw
  -- what stands in front is a multiple of twice the width, next to the reading
  have hmultiple : (((if topBit w n then 2 ^ w - 1 else 0) * 2 ^ w + n : Nat) : Int) =
      signed w n + 2 ^ (2 * w) * if topBit w n then 1 else 0 := by
    have hdouble : (2 : Int) ^ (2 * w) = 2 ^ w * 2 ^ w := by rw [Nat.two_mul, Int.pow_add]
    rw [signed_natCast h, topBit_eq hw h, hdouble]
    by_cases hn : 2 ^ (w - 1) ≤ n
    · have hlow : ¬ n < 2 ^ (w - 1) := by omega
      rw [decide_eq_true hn, if_pos rfl, if_pos rfl, if_neg hlow, Nat.sub_mul, Nat.one_mul]
      have hsquare : 2 ^ w ≤ 2 ^ w * 2 ^ w := Nat.le_mul_of_pos_left _ hpos
      push_cast [hsquare]
      omega
    · have hlow : n < 2 ^ (w - 1) := by omega
      rw [decide_eq_false hn, if_neg Bool.false_ne_true, if_neg Bool.false_ne_true, if_pos hlow]
      omega
  rw [hmultiple, signed_congr (Int.add_mul_emod_self_left _ _ _)]
  exact signed_signed_of_le hw (by omega) n

/-- Zero, sign and parity are those of a word. -/
structure FlagEffect.Describes (e : FlagEffect) (w value : Nat) : Prop where
  zero_eq : e.zero = some (decide (value = 0))
  sign_eq : e.sign = some (decide (2 ^ (w - 1) ≤ value))
  parity_eq : e.parity = some (decide (setBits (value % 2 ^ 8) % 2 = 0))

theorem describes_resultFlags (hw : 0 < w) (h : n < 2 ^ w) : (resultFlags w n).Describes w n where
  zero_eq := congrArg some (Bool.beq_eq_decide_eq n 0)
  sign_eq := congrArg some (topBit_eq hw h)
  parity_eq := congrArg some (evenParity_eq n)

end LongMode

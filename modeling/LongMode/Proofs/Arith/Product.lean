import Mathlib.Tactic.Ring
import LongMode.Arith.Product
import LongMode.Proofs.Arith.Bits

/-!
# Products and quotients satisfy their equations

* `Product.Reports`: the halves of a product are words, zero, sign and parity are those of the low half, and carry and
  overflow both tell whether the low half loses anything.
* `multiply_halves` and `signed_multiplySigned`: the two halves make up the product, of the words or of their signed
  readings.
* `IsTruncatedQuotient`: a quotient rounded toward zero, by the equation and the bound for what is left.
* `tdiv_leaves_range_iff`: a quotient of a number of a width is outside it for the least number by -1 only.
* `divide_exact` and `divideSigned_exact`: a quotient is missing exactly when it does not fit, and satisfies its
  equation otherwise.
* `divide_multiply` and `divideSigned_multiplySigned`: a product divided by one of its factors is the other one.
-/

namespace LongMode

/-- The halves of a product of words and its flags; `lossy` says whether the low half alone is not the product. -/
structure Product.Reports (r : Product) (w : Nat) (lossy : Bool) : Prop where
  low_lt : r.low < 2 ^ w
  high_lt : r.high < 2 ^ w
  describes : r.flags.Describes w r.low
  carry_eq : r.flags.carry = some lossy
  overflow_eq : r.flags.overflow = some lossy
  adjust_eq : r.flags.adjust = some false

/-- A quotient rounded toward zero: what is left is smaller than the divisor and has the sign of the dividend. -/
structure IsTruncatedQuotient (n d q r : Int) : Prop where
  dividend_eq : n = q * d + r
  natAbs_lt : r.natAbs < d.natAbs
  sign_eq : r = 0 ∨ r.sign = n.sign

theorem isTruncatedQuotient_tdiv (n : Int) {d : Int} (hd : d ≠ 0) :
    IsTruncatedQuotient n d (n.tdiv d) (n - n.tdiv d * d) := by
  have hrest : n - n.tdiv d * d = n.tmod d := by rw [Int.tmod_def, Int.mul_comm]
  have habs := Int.natAbs_tmod n d
  have hlt : n.natAbs % d.natAbs < d.natAbs := Nat.mod_lt _ (by omega)
  refine ⟨by omega, by omega, ?_⟩
  rw [hrest]
  rcases Int.lt_or_le n 0 with hn | hn
  · have hneg := Int.tmod_nonneg d (show 0 ≤ -n by omega)
    rw [Int.neg_tmod] at hneg
    rcases Int.lt_or_eq_of_le (show n.tmod d ≤ 0 by omega) with hr | hr
    · exact Or.inr ((Int.sign_eq_neg_one_of_neg hr).trans (Int.sign_eq_neg_one_of_neg hn).symm)
    · exact Or.inl hr
  · rcases Int.lt_or_eq_of_le (Int.tmod_nonneg d hn) with hr | hr
    · have hpos : 0 < n := by
        rcases Int.lt_or_eq_of_le hn with h | rfl
        · exact h
        · rw [Int.zero_tmod] at hr
          omega
      exact Or.inr ((Int.sign_eq_one_of_pos hr).trans (Int.sign_eq_one_of_pos hpos).symm)
    · exact Or.inl hr.symm

/-- A divisor other than 1 and -1 brings every number nearer to zero. -/
theorem tdiv_leaves_range_iff {n d h : Int} (hd : d ≠ 0) (hl : -h ≤ n) (hu : n < h) :
    ¬ (-h ≤ n.tdiv d ∧ n.tdiv d < h) ↔ n = -h ∧ d = -1 := by
  by_cases hone : d.natAbs = 1
  · rcases Int.natAbs_eq_iff.1 hone with rfl | rfl
    · rw [Int.natCast_one, Int.tdiv_one]
      omega
    · rw [Int.natCast_one, Int.tdiv_neg, Int.tdiv_one]
      omega
  · have habs : (n.tdiv d).natAbs = n.natAbs / d.natAbs := Int.natAbs_tdiv n d
    have hle : n.natAbs / d.natAbs ≤ n.natAbs / 2 := Nat.div_le_div_left (by omega) (by decide)
    rw [← habs] at hle
    omega

namespace Word

variable {w a b n d : Nat}

/-! ### Products -/

private theorem describes_productFlags (hw : 0 < w) {low : Nat} (h : low < 2 ^ w) (lossy : Bool) :
    (productFlags w low lossy).Describes w low :=
  have hresult := describes_resultFlags hw h
  ⟨hresult.zero_eq, hresult.sign_eq, hresult.parity_eq⟩

theorem reports_multiply (hw : 0 < w) (ha : a < 2 ^ w) (hb : b < 2 ^ w) :
    (multiply w a b).Reports w (decide ((multiply w a b).high ≠ 0)) := by
  have hlow : (multiply w a b).low < 2 ^ w := Nat.mod_lt _ (Nat.two_pow_pos w)
  have hhigh : (multiply w a b).high < 2 ^ w := Nat.div_lt_of_lt_mul (Nat.mul_lt_mul'' ha hb)
  have hlossy : ((multiply w a b).high != 0) = decide ((multiply w a b).high ≠ 0) := by
    rw [Bool.eq_iff_iff, bne_iff_ne, decide_eq_true_eq]
  exact ⟨hlow, hhigh, describes_productFlags hw hlow _, congrArg some hlossy, congrArg some hlossy, rfl⟩

theorem multiply_halves (w a b : Nat) : (multiply w a b).high * 2 ^ w + (multiply w a b).low = a * b :=
  Nat.div_add_mod' (a * b) (2 ^ w)

/-- The product of two signed readings has a reading of twice the width. -/
private theorem signed_product (hw : 0 < w) (y z : Int) :
    signed (2 * w) (signed w y * signed w z) = signed w y * signed w z := by
  have hhalf : ((2 ^ (w - 1) : Nat) : Int) = 2 ^ (w - 1) := by simp
  have hly := le_signed hw y
  have huy := signed_lt hw y
  have hlz := le_signed hw z
  have huz := signed_lt hw z
  have habs : (signed w y * signed w z).natAbs ≤ 2 ^ (w - 1) * 2 ^ (w - 1) := by
    rw [Int.natAbs_mul]
    exact Nat.mul_le_mul (by omega) (by omega)
  have hdouble : (2 : Int) ^ (2 * w - 1) = 2 * ((2 ^ (w - 1) * 2 ^ (w - 1) : Nat) : Int) := by
    rw [show 2 * w - 1 = 1 + (w - 1) + (w - 1) by omega, Int.pow_add, Int.pow_add]
    simp [Int.mul_assoc]
  have hpos : 0 < 2 ^ (w - 1) * 2 ^ (w - 1) := Nat.mul_pos (Nat.two_pow_pos _) (Nat.two_pow_pos _)
  exact signed_eq_self (by omega) (by omega) (by omega)

theorem signed_multiplySigned (hw : 0 < w) (a b : Nat) :
    signed (2 * w) ((multiplySigned w a b).high * 2 ^ w + (multiplySigned w a b).low) = signed w a * signed w b := by
  obtain ⟨p, hp⟩ : ∃ p, signed w a * signed w b = p := ⟨_, rfl⟩
  have hlow : ((multiplySigned w a b).low : Int) = p % 2 ^ w := by rw [← hp]; exact natCast_truncate _ _
  have hhigh : ((multiplySigned w a b).high : Int) = p / 2 ^ w % 2 ^ w := by rw [← hp]; exact natCast_truncate _ _
  -- the halves differ from the product by a multiple of twice the width
  have hhalves : p / 2 ^ w % 2 ^ w * 2 ^ w + p % 2 ^ w = p - 2 ^ (2 * w) * (p / 2 ^ w / 2 ^ w) := by
    rw [Int.emod_def (p / 2 ^ w), Int.emod_def p]
    ring
  have hsame : signed (2 * w) (p - 2 ^ (2 * w) * (p / 2 ^ w / 2 ^ w)) = signed (2 * w) p :=
    signed_congr (Int.sub_mul_emod_self_left p _ _)
  rw [hlow, hhigh, hhalves, hsame, ← hp, signed_product hw, hp]

theorem reports_multiplySigned (hw : 0 < w) (a b : Nat) :
    (multiplySigned w a b).Reports w
      (decide (signed w a * signed w b < -2 ^ (w - 1) ∨ 2 ^ (w - 1) ≤ signed w a * signed w b)) := by
  have hlow : (multiplySigned w a b).low < 2 ^ w := truncate_lt w _
  have hlossy : (signed w a * signed w b != signed w ((multiplySigned w a b).low : Int)) =
      decide (signed w a * signed w b < -2 ^ (w - 1) ∨ 2 ^ (w - 1) ≤ signed w a * signed w b) := by
    have hread : signed w ((multiplySigned w a b).low : Int) = signed w (signed w a * signed w b) := signed_truncate w _
    rw [Bool.eq_iff_iff, bne_iff_ne, decide_eq_true_eq, hread]
    constructor
    · intro hne
      by_contra hfits
      exact hne (signed_eq_self hw (by omega) (by omega)).symm
    · intro hout heq
      have hl := le_signed hw (signed w a * signed w b)
      have hu := signed_lt hw (signed w a * signed w b)
      omega
  exact ⟨hlow, truncate_lt w _, describes_productFlags hw hlow _, congrArg some hlossy, congrArg some hlossy, rfl⟩

/-! ### Quotients -/

theorem quotient_divide_eq_none : (divide w n d).quotient = none ↔ ¬ n / d < 2 ^ w := by
  unfold divide
  dsimp only
  split <;> simp_all

theorem quotient_divideSigned_eq_none : (divideSigned w n d).quotient = none ↔
    ¬ (-2 ^ (w - 1) ≤ (signed (2 * w) n).tdiv (signed w d) ∧ (signed (2 * w) n).tdiv (signed w d) < 2 ^ (w - 1)) := by
  rw [← fitsSigned_iff]
  unfold divideSigned
  dsimp only
  split <;> simp_all

theorem divide_exact (hd : 0 < d) : ((divide w n d).quotient = none ↔ d * 2 ^ w ≤ n) ∧
    ∀ q, (divide w n d).quotient = some q →
      q < 2 ^ w ∧ n = q * d + (divide w n d).remainder ∧ (divide w n d).remainder < d := by
  constructor
  · rw [quotient_divide_eq_none, Nat.div_lt_iff_lt_mul hd, Nat.not_lt, Nat.mul_comm]
  · intro q hq
    have hfits : n / d < 2 ^ w := Classical.not_not.1 fun h => by
      rw [quotient_divide_eq_none.2 h] at hq
      cases hq
    have hquotient : n / d = q := by
      rw [divide, if_pos hfits] at hq
      exact Option.some.inj hq
    exact ⟨hquotient ▸ hfits, hquotient ▸ (Nat.div_add_mod' n d).symm, Nat.mod_lt n hd⟩

theorem divideSigned_exact (hw : 0 < w) (hd : 0 < d) (hlt : d < 2 ^ w) (n : Nat) :
    ∃ q r, IsTruncatedQuotient (signed (2 * w) n) (signed w d) q r ∧
      ((divideSigned w n d).quotient = none ↔ q < -2 ^ (w - 1) ∨ 2 ^ (w - 1) ≤ q) ∧
      ∀ k, (divideSigned w n d).quotient = some k → k < 2 ^ w ∧ signed w k = q ∧
        (divideSigned w n d).remainder < 2 ^ w ∧ signed w (divideSigned w n d).remainder = r := by
  have htruncated := isTruncatedQuotient_tdiv (signed (2 * w) n) (signed_ne_zero (Nat.ne_of_gt hd) hlt)
  obtain ⟨q, hq⟩ : ∃ q, (signed (2 * w) n).tdiv (signed w d) = q := ⟨_, rfl⟩
  have hnone := @quotient_divideSigned_eq_none w n d
  rw [hq] at htruncated hnone
  refine ⟨q, _, htruncated, by rw [hnone]; omega, ?_⟩
  intro k hk
  have hfits : -2 ^ (w - 1) ≤ q ∧ q < 2 ^ (w - 1) := Classical.not_not.1 fun h => by
    rw [hnone.2 h] at hk
    cases hk
  have hquotient : truncate w q = k := by
    rw [divideSigned, hq, if_pos (fitsSigned_iff.2 hfits)] at hk
    exact Option.some.inj hk
  have hremainder : (divideSigned w n d).remainder = truncate w (signed (2 * w) n - q * signed w d) := by
    rw [divideSigned, hq]
  -- what is left is smaller than the divisor, which is a reading of the width
  have hsmall := htruncated.natAbs_lt
  have hl := le_signed hw (d : Int)
  have hu := signed_lt hw (d : Int)
  rw [hremainder, ← hquotient, signed_truncate, signed_truncate]
  exact ⟨truncate_lt w q, signed_eq_self hw hfits.1 hfits.2, truncate_lt w _,
    signed_eq_self hw (by omega) (by omega)⟩

/-! ### Products divided -/

theorem divide_multiply (ha : a < 2 ^ w) (hb : b ≠ 0) :
    divide w ((multiply w a b).high * 2 ^ w + (multiply w a b).low) b = ⟨some a, 0⟩ := by
  rw [multiply_halves, divide, Nat.mul_div_cancel a (Nat.pos_of_ne_zero hb), Nat.mul_mod_left, if_pos ha]

theorem divideSigned_multiplySigned (hw : 0 < w) (ha : a < 2 ^ w) (hb : b ≠ 0) (hlt : b < 2 ^ w) :
    divideSigned w ((multiplySigned w a b).high * 2 ^ w + (multiplySigned w a b).low) b = ⟨some a, 0⟩ := by
  have hproduct := signed_multiplySigned hw a b
  have hquotient : (signed w a * signed w b).tdiv (signed w b) = signed w a :=
    Int.mul_tdiv_cancel _ (signed_ne_zero hb hlt)
  have hfits : fitsSigned w (signed w a) = true := fitsSigned_iff.2 ⟨le_signed hw _, signed_lt hw _⟩
  have hrest : truncate w 0 = 0 := truncate_of_lt (Nat.two_pow_pos w)
  unfold divideSigned
  push_cast
  rw [hproduct, hquotient, if_pos hfits, truncate_signed, truncate_of_lt ha, Int.sub_self, hrest]

/-! ### All of them -/

/-- Products of words `a` and `b`, and divisions of any dividend `n` by a word `d` that is not zero. -/
theorem products_and_quotients_exact (hw : 0 < w) (ha : a < 2 ^ w) (hb : b < 2 ^ w) (hd : 0 < d) (hlt : d < 2 ^ w) :
    (multiply w a b).Reports w (decide ((multiply w a b).high ≠ 0)) ∧
      (multiply w a b).high * 2 ^ w + (multiply w a b).low = a * b ∧
      (multiplySigned w a b).Reports w
        (decide (signed w a * signed w b < -2 ^ (w - 1) ∨ 2 ^ (w - 1) ≤ signed w a * signed w b)) ∧
      signed (2 * w) ((multiplySigned w a b).high * 2 ^ w + (multiplySigned w a b).low) =
        signed w a * signed w b ∧
      ((divide w n d).quotient = none ↔ d * 2 ^ w ≤ n) ∧
      (∀ q, (divide w n d).quotient = some q →
        q < 2 ^ w ∧ n = q * d + (divide w n d).remainder ∧ (divide w n d).remainder < d) ∧
      ∃ q r, IsTruncatedQuotient (signed (2 * w) n) (signed w d) q r ∧
        ((divideSigned w n d).quotient = none ↔ q < -2 ^ (w - 1) ∨ 2 ^ (w - 1) ≤ q) ∧
        ∀ k, (divideSigned w n d).quotient = some k → k < 2 ^ w ∧ signed w k = q ∧
          (divideSigned w n d).remainder < 2 ^ w ∧ signed w (divideSigned w n d).remainder = r := by
  obtain ⟨hnone, hsome⟩ := @divide_exact w n d hd
  exact ⟨reports_multiply hw ha hb, multiply_halves w a b, reports_multiplySigned hw a b,
    signed_multiplySigned hw a b, hnone, hsome, divideSigned_exact hw hd hlt n⟩

/-- The least signed byte, times itself and divided by -1: both results need more than a byte. -/
theorem products_and_quotients_exact_least_byte : (multiplySigned 8 128 128).Reports 8 true ∧
    (divide 8 0xff80 0xff).quotient = none ∧ (divideSigned 8 0xff80 0xff).quotient = none := by
  obtain ⟨-, -, hproduct, -, hdivide, -, q, r, htruncated, hnone, -⟩ :=
    @products_and_quotients_exact 8 128 128 0xff80 0xff (by decide) (by decide) (by decide) (by decide) (by decide)
  have hdividend : signed (2 * 8) (0xff80 : Nat) = -128 := by decide
  have hdivisor : signed 8 (0xff : Nat) = -1 := by decide
  -- nothing is left of a division by -1
  have hequation := htruncated.dividend_eq
  have hrest := htruncated.natAbs_lt
  rw [hdividend, hdivisor] at hequation
  rw [hdivisor] at hrest
  exact ⟨hproduct, hdivide.2 (by decide), hnone.2 (Or.inr (by omega))⟩

end Word

end LongMode

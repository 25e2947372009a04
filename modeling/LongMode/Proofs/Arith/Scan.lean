import Mathlib.Data.Int.Bitwise
import Mathlib.Data.Nat.Size
import LongMode.Arith.Scan
import LongMode.Instances

/-!
# Scans and set bits

* `lowestSetBit?_eq_some_iff`: a number with lowest set bit `i` is an odd number in front of `i` zeros.  So the bit is
  the only one that is set with no set bit below it, and its weight the largest power of two that divides the number.
* `land_neg_of_lowestSetBit?`: it is the bit that a number and its negative have in common, in two's complement.
* `highestSetBit?_eq_some_iff`: the highest set bit is the power of two that a number lies above.
* `lowestSetBit?_eq_highestSetBit?_iff`: they are the same bit for powers of two, and for no other numbers.
-/

namespace LongMode

variable {n i j : Nat}

/-! ### The lowest set bit -/

theorem lowestSetBit?_eq_some_iff : lowestSetBit? n = some i ↔ ∃ q, n = 2 ^ i * (2 * q + 1) := by
  -- a number in front of some zeros is even, unless there are none
  have heven : ∀ i q : Nat, 2 ^ (i + 1) * (2 * q + 1) = 2 * (2 ^ i * (2 * q + 1)) := by
    intro i q
    rw [Nat.pow_succ', Nat.mul_assoc]
  induction n using lowestSetBit?.induct generalizing i with
  | case1 =>
    have hpos : ∀ q, 0 < 2 ^ i * (2 * q + 1) := fun q => Nat.mul_pos (Nat.two_pow_pos i) (Nat.succ_pos _)
    rw [lowestSetBit?, if_pos rfl]
    exact ⟨nofun, fun ⟨q, hq⟩ => absurd hq (hpos q).ne⟩
  | case2 n hn hodd =>
    rw [lowestSetBit?, if_neg hn, if_pos hodd, Option.some_inj]
    cases i with
    | zero => exact ⟨fun _ => ⟨n / 2, by omega⟩, fun _ => rfl⟩
    | succ i =>
      refine ⟨nofun, fun ⟨q, hq⟩ => ?_⟩
      rw [heven] at hq
      omega
  | case3 n hn hodd ih =>
    rw [lowestSetBit?, if_neg hn, if_neg hodd, Option.map_eq_some_iff]
    cases i with
    | zero =>
      refine ⟨fun ⟨_, _, h⟩ => absurd h (Nat.succ_ne_zero _), fun ⟨q, hq⟩ => ?_⟩
      omega
    | succ i =>
      have hhalf : ∀ q, n / 2 = 2 ^ i * (2 * q + 1) ↔ n = 2 ^ (i + 1) * (2 * q + 1) := by
        intro q
        rw [heven]
        omega
      simp only [Nat.add_right_cancel_iff, exists_eq_right, ih, hhalf]

theorem lowestSetBit?_eq_none : lowestSetBit? n = none ↔ n = 0 := by
  induction n using lowestSetBit?.induct with
  | case1 => simp [lowestSetBit?]
  | case2 n hn hodd =>
    rw [lowestSetBit?, if_neg hn, if_pos hodd]
    exact ⟨nofun, fun h => absurd h hn⟩
  | case3 n hn heven ih =>
    rw [lowestSetBit?, if_neg hn, if_neg heven, Option.map_eq_none_iff, ih]
    omega

/-- Bit `i` is set, and no lower bit is. -/
theorem lowestSetBit?_eq_some_iff_testBit :
    lowestSetBit? n = some i ↔ n.testBit i = true ∧ ∀ k < i, n.testBit k = false := by
  have hbits : ∀ {i}, lowestSetBit? n = some i → n.testBit i = true ∧ ∀ k < i, n.testBit k = false := by
    intro i h
    obtain ⟨q, rfl⟩ := lowestSetBit?_eq_some_iff.1 h
    refine ⟨?_, fun k hk => ?_⟩
    · rw [Nat.testBit_two_pow_mul, decide_eq_true (Nat.le_refl i), Nat.sub_self, Nat.testBit_zero, Nat.mul_add_mod]
      rfl
    · rw [Nat.testBit_two_pow_mul, decide_eq_false (Nat.not_le.2 hk), Bool.false_and]
  refine ⟨hbits, fun ⟨hi, hlow⟩ => ?_⟩
  obtain ⟨j, hj⟩ : ∃ j, lowestSetBit? n = some j := by
    refine Option.ne_none_iff_exists'.1 fun h => ?_
    rw [lowestSetBit?_eq_none.1 h, Nat.zero_testBit] at hi
    cases hi
  -- of two such bits neither is below the other
  rcases Nat.lt_trichotomy i j with hij | rfl | hij
  · exact absurd hi (Bool.eq_false_iff.1 ((hbits hj).2 i hij))
  · exact hj
  · exact absurd (hbits hj).1 (Bool.eq_false_iff.1 (hlow j hij))

theorem lowestSetBit?_eq_some_iff_dvd : lowestSetBit? n = some i ↔ 2 ^ i ∣ n ∧ ¬ 2 ^ (i + 1) ∣ n := by
  rw [lowestSetBit?_eq_some_iff]
  constructor
  · rintro ⟨q, rfl⟩
    refine ⟨Nat.dvd_mul_right _ _, fun h => ?_⟩
    rw [Nat.pow_succ, Nat.mul_dvd_mul_iff_left (Nat.two_pow_pos i)] at h
    omega
  · rintro ⟨⟨a, rfl⟩, h⟩
    rw [Nat.pow_succ, Nat.mul_dvd_mul_iff_left (Nat.two_pow_pos i)] at h
    exact ⟨a / 2, by rw [show 2 * (a / 2) + 1 = a by omega]⟩

/-- In two's complement a number and its negative have the lowest set bit in common, and nothing else. -/
theorem land_neg_of_lowestSetBit? (h : lowestSetBit? n = some i) : Int.land n (-n) = 2 ^ i := by
  obtain ⟨q, hn⟩ := lowestSetBit?_eq_some_iff.1 h
  have hpos := Nat.two_pow_pos i
  obtain ⟨p, hp⟩ : ∃ p, p = 2 ^ i * (2 * q) + (2 ^ i - 1) := ⟨_, rfl⟩
  have hsucc : n = p + 1 := by
    rw [hn, hp, Nat.mul_add_one]
    omega
  -- the negative is the complement of the predecessor, in which the zeros and the odd number's last bit are turned
  have hneg : -(n : Int) = Int.negSucc p := by rw [hsucc]; rfl
  have hdiff : Nat.ldiff n p = 2 ^ i := by
    refine Nat.eq_of_testBit_eq fun k => ?_
    rw [Nat.testBit_ldiff, Nat.testBit_two_pow, hp, Nat.testBit_two_pow_mul_add _ (by omega), hn,
      Nat.testBit_two_pow_mul]
    rcases Nat.lt_trichotomy k i with hk | rfl | hk
    · rw [decide_eq_false (Nat.not_le.2 hk), Bool.false_and, Bool.false_and, decide_eq_false hk.ne']
    · rw [if_neg (Nat.lt_irrefl k), Nat.sub_self, Nat.testBit_zero, Nat.testBit_zero, Nat.mul_add_mod,
        Nat.mul_mod_right]
      simp
    · obtain ⟨d, rfl⟩ : ∃ d, k = i + (d + 1) := ⟨k - i - 1, by omega⟩
      rw [if_neg (by omega), Nat.add_sub_cancel_left, Nat.testBit_succ, Nat.testBit_succ, decide_eq_false hk.ne]
      have hodd : (2 * q + 1) / 2 = q := by omega
      have heven : 2 * q / 2 = q := by omega
      rw [hodd, heven, Bool.and_assoc, Bool.and_not_self, Bool.and_false]
  rw [hneg]
  exact (congrArg Int.ofNat hdiff).trans (Nat.cast_pow 2 i)

/-- The lowest set bit as the length of a number that has this bit only. -/
theorem lowestSetBit?_eq_size (hn : n ≠ 0) : lowestSetBit? n = some ((Int.land n (-n)).toNat.size - 1) := by
  obtain ⟨i, h⟩ := Option.ne_none_iff_exists'.1 fun h => hn (lowestSetBit?_eq_none.1 h)
  have hcast : ((2 : Int) ^ i).toNat = 2 ^ i := by
    rw [← Int.toNat_natCast (2 ^ i), Nat.cast_pow]
    rfl
  rw [h, land_neg_of_lowestSetBit? h, hcast, Nat.size_pow, Nat.add_sub_cancel]

/-! ### The highest set bit -/

theorem highestSetBit?_eq_none : highestSetBit? n = none ↔ n = 0 := by
  unfold highestSetBit?
  split <;> simp_all

theorem highestSetBit?_eq_some_iff : highestSetBit? n = some j ↔ 2 ^ j ≤ n ∧ n < 2 ^ (j + 1) := by
  rcases Nat.eq_zero_or_pos n with rfl | hn
  · exact ⟨nofun, fun h => absurd h.1 (Nat.not_le.2 (Nat.two_pow_pos j))⟩
  · rw [highestSetBit?, if_neg hn.ne', Option.some_inj, Nat.log2_eq_iff hn.ne']

theorem testBit_of_highestSetBit? (h : highestSetBit? n = some j) : n.testBit j = true :=
  have ⟨hle, hlt⟩ := highestSetBit?_eq_some_iff.1 h
  Nat.testBit_of_two_pow_le_and_two_pow_add_one_gt hle hlt

theorem highestSetBit?_eq_size (hn : n ≠ 0) : highestSetBit? n = some (n.size - 1) := by
  have hpos : 0 < n.size := Nat.size_pos.2 (Nat.pos_of_ne_zero hn)
  refine highestSetBit?_eq_some_iff.2 ⟨Nat.lt_size.1 (by omega), ?_⟩
  rw [Nat.sub_add_cancel hpos]
  exact Nat.lt_size_self n

/-! ### Both -/

theorem lowestSetBit?_le_highestSetBit? (hi : lowestSetBit? n = some i) (hj : highestSetBit? n = some j) : i ≤ j := by
  obtain ⟨q, rfl⟩ := lowestSetBit?_eq_some_iff.1 hi
  have hlt := (highestSetBit?_eq_some_iff.1 hj).2
  have hle : 2 ^ i ≤ 2 ^ i * (2 * q + 1) := Nat.le_mul_of_pos_right _ (Nat.succ_pos _)
  exact Nat.lt_succ_iff.1 ((Nat.pow_lt_pow_iff_right (by decide)).1 (hle.trans_lt hlt))

theorem lowestSetBit?_eq_highestSetBit?_iff (hi : lowestSetBit? n = some i) (hj : highestSetBit? n = some j) :
    i = j ↔ ∃ k, n = 2 ^ k := by
  constructor
  · rintro rfl
    obtain ⟨q, rfl⟩ := lowestSetBit?_eq_some_iff.1 hi
    have hlt := (highestSetBit?_eq_some_iff.1 hj).2
    rw [Nat.pow_succ, Nat.mul_lt_mul_left (Nat.two_pow_pos i)] at hlt
    obtain rfl : q = 0 := by omega
    exact ⟨i, Nat.mul_one _⟩
  · rintro ⟨k, rfl⟩
    have hlow : lowestSetBit? (2 ^ k) = some k := lowestSetBit?_eq_some_iff.2 ⟨0, (Nat.mul_one _).symm⟩
    have hhigh : highestSetBit? (2 ^ k) = some k :=
      highestSetBit?_eq_some_iff.2 ⟨Nat.le_refl _, Nat.pow_lt_pow_succ (by decide)⟩
    exact (Option.some.inj (hi.symm.trans hlow)).trans (Option.some.inj (hhigh.symm.trans hj))

end LongMode

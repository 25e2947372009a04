import LongMode.Proofs.Arith.Bits

/-!
# Sums and differences are exact

Flags of sums and differences are read off single bits.  Here they are said of numbers.

* `Flagged.Reports`: a result is a total reduced to the width.  Overflow tells that the total of the signed readings
  leaves the signed range, adjust that the total of the low four bits leaves theirs.
* `reports_add` and `reports_sub`: this holds of sums with a carry and of differences with a borrow, for words of eight
  bits or more.
* `reports_increment`, `reports_decrement` and `reports_negate`: it holds of the sums and differences with one fixed
  operand.
* `sub_compares`: so the flags of a difference compare the two words, as numbers and as signed numbers.
-/

namespace LongMode

/-- A result of width `w` with its flags, said of three totals: of the words, of their signed readings and of their low
four bits. -/
structure Flagged.Reports (r : Flagged) (w : Nat) (total totalSigned nibbles : Int) (carry : Option Bool) : Prop where
  value_eq : (r.value : Int) = total % 2 ^ w
  describes : r.flags.Describes w r.value
  carry_eq : r.flags.carry = carry
  overflow_eq : r.flags.overflow = some (decide (totalSigned < -2 ^ (w - 1) ∨ 2 ^ (w - 1) ≤ totalSigned))
  adjust_eq : r.flags.adjust = some (decide (nibbles < 0 ∨ 16 ≤ nibbles))

namespace Word

variable {w a b c r : Nat}

/-! ### Words in halves -/

/-- The signed reading of a word, from half the number of words. -/
private theorem signed_half (hw : 0 < w) (h : a < 2 ^ w) :
    signed w a = if a < 2 ^ (w - 1) then (a : Int) else a - 2 * (2 ^ (w - 1) : Nat) := by
  have hhalf : ((2 ^ (w - 1) : Nat) : Int) = 2 ^ (w - 1) := by simp
  rw [signed_natCast h, two_pow_pred hw, hhalf]

/-- A total of two words and a carry or borrow wraps around at most once. -/
private theorem wraps_once {total : Int} (hr : (r : Int) = total % 2 ^ w) (hl : -2 ^ w ≤ total)
    (hu : total < 2 * 2 ^ w) : (r : Int) = total ∨ (r : Int) = total - 2 ^ w ∨ (r : Int) = total + 2 ^ w := by
  by_cases h0 : total < 0
  · rw [← Int.add_emod_right, Int.emod_eq_of_lt (by omega) (by omega)] at hr
    omega
  · by_cases hlt : total < 2 ^ w
    · rw [Int.emod_eq_of_lt (by omega) hlt] at hr
      omega
    · rw [← Int.sub_emod_right, Int.emod_eq_of_lt (by omega) (by omega)] at hr
      omega

/-! ### Overflow -/

/-- The operands have one top bit and the sum has the other: the sum of the readings has left the signed range. -/
private theorem overflow_add {H : Nat} {x y : Int} (ha : a < 2 * H) (hb : b < 2 * H) (hc : c ≤ 1) (hr : r < 2 * H)
    (hx : x = if a < H then (a : Int) else a - 2 * H) (hy : y = if b < H then (b : Int) else b - 2 * H)
    (hsum : r = a + b + c ∨ r + 2 * H = a + b + c) :
    (decide (H ≤ a) == decide (H ≤ b) && decide (H ≤ a) != decide (H ≤ r)) =
      decide (x + y + c < -H ∨ (H : Int) ≤ x + y + c) := by
  rw [Bool.eq_iff_iff, decide_eq_true_eq]
  simp only [Bool.and_eq_true, beq_iff_eq, bne_iff_ne, ne_eq, decide_eq_decide]
  split at hx <;> split at hy <;> omega

/-- The operands have different top bits and the difference has that of the second: the difference of the readings has
left the signed range. -/
private theorem overflow_sub {H : Nat} {x y : Int} (ha : a < 2 * H) (hb : b < 2 * H) (hc : c ≤ 1) (hr : r < 2 * H)
    (hx : x = if a < H then (a : Int) else a - 2 * H) (hy : y = if b < H then (b : Int) else b - 2 * H)
    (hdiff : r + b + c = a ∨ r + b + c = a + 2 * H) :
    (decide (H ≤ a) != decide (H ≤ b) && decide (H ≤ a) != decide (H ≤ r)) =
      decide (x - y - c < -H ∨ (H : Int) ≤ x - y - c) := by
  rw [Bool.eq_iff_iff, decide_eq_true_eq]
  simp only [Bool.and_eq_true, bne_iff_ne, ne_eq, decide_eq_decide]
  split at hx <;> split at hy <;> omega

/-! ### Adjust -/

private theorem testBit_xor_four (x y z : Nat) :
    (x ^^^ y ^^^ z).testBit 4 = decide ((x / 16 + y / 16 + z / 16) % 2 = 1) := by
  have hx := Nat.mod_two_eq_zero_or_one (x / 16)
  have hy := Nat.mod_two_eq_zero_or_one (y / 16)
  have hz := Nat.mod_two_eq_zero_or_one (z / 16)
  have hsum : (x / 16 + y / 16 + z / 16) % 2 = (x / 16 % 2 + y / 16 % 2 + z / 16 % 2) % 2 := by omega
  rw [Nat.testBit_xor, Nat.testBit_xor, hsum]
  simp only [Nat.testBit_eq_decide_div_mod_eq]
  rcases hx with hx | hx <;> rcases hy with hy | hy <;> rcases hz with hz | hz <;> simp [hx, hy, hz]

/-- A word of eight bits or more keeps the low five bits of what it is reduced from. -/
private theorem low_bits {total : Int} (hw : 8 ≤ w) (hr : (r : Int) = total % 2 ^ w) : (r : Int) % 32 = total % 32 := by
  have hdvd : (32 : Int) ∣ 2 ^ w := by
    obtain ⟨k, rfl⟩ : ∃ k, w = 5 + k := ⟨w - 5, by omega⟩
    rw [Int.pow_add]
    exact Int.dvd_mul_right _ _
  rw [hr, Int.emod_emod_of_dvd total hdvd]

/-! ### Sums and differences of two words -/

theorem reports_add (hw : 8 ≤ w) (ha : a < 2 ^ w) (hb : b < 2 ^ w) (hc : c ≤ 1) :
    (add w a b c).Reports w (a + b + c) (signed w a + signed w b + c) (a % 16 + b % 16 + c)
      (some (decide (2 ^ w ≤ a + b + c))) := by
  have hw0 : 0 < w := by omega
  have hhalf := two_pow_eq_double hw0
  have hword : ((2 ^ w : Nat) : Int) = 2 ^ w := by simp
  have hcast : ((2 ^ (w - 1) : Nat) : Int) = 2 ^ (w - 1) := by simp
  obtain ⟨r, hr⟩ : ∃ r, (a + b + c) % 2 ^ w = r := ⟨_, rfl⟩
  have hrlt : r < 2 ^ w := hr ▸ Nat.mod_lt _ (Nat.two_pow_pos w)
  have hvalue : (r : Int) = ((a : Int) + b + c) % 2 ^ w := by
    rw [← hr]
    simp
  have hwrap := wraps_once hvalue (by omega) (by omega)
  have hlow := low_bits hw hvalue
  have hresult := describes_resultFlags hw0 hrlt
  rw [add]
  dsimp only
  rw [hr]
  refine ⟨hvalue, ⟨hresult.zero_eq, hresult.sign_eq, hresult.parity_eq⟩, rfl, ?_, ?_⟩
  · rw [topBit_eq hw0 ha, topBit_eq hw0 hb, topBit_eq hw0 hrlt, ← hcast]
    exact congrArg some (overflow_add (by omega) (by omega) hc (by omega) (signed_half hw0 ha) (signed_half hw0 hb)
      (by omega))
  · rw [testBit_xor_four]
    refine congrArg some (decide_eq_decide.2 ?_)
    omega

theorem reports_sub (hw : 8 ≤ w) (ha : a < 2 ^ w) (hb : b < 2 ^ w) (hc : c ≤ 1) :
    (sub w a b c).Reports w (a - b - c) (signed w a - signed w b - c) (a % 16 - b % 16 - c)
      (some (decide (a < b + c))) := by
  have hw0 : 0 < w := by omega
  have hhalf := two_pow_eq_double hw0
  have hword : ((2 ^ w : Nat) : Int) = 2 ^ w := by simp
  have hcast : ((2 ^ (w - 1) : Nat) : Int) = 2 ^ (w - 1) := by simp
  obtain ⟨r, hr⟩ : ∃ r, truncate w ((a : Int) - b - c) = r := ⟨_, rfl⟩
  have hrlt : r < 2 ^ w := hr ▸ truncate_lt w _
  have hvalue : (r : Int) = ((a : Int) - b - c) % 2 ^ w := by rw [← hr, natCast_truncate]
  have hwrap := wraps_once hvalue (by omega) (by omega)
  have hlow := low_bits hw hvalue
  have hresult := describes_resultFlags hw0 hrlt
  rw [sub]
  dsimp only
  rw [hr]
  refine ⟨hvalue, ⟨hresult.zero_eq, hresult.sign_eq, hresult.parity_eq⟩, ?_, ?_, ?_⟩
  · refine congrArg some (decide_eq_decide.2 ?_)
    omega
  · rw [topBit_eq hw0 ha, topBit_eq hw0 hb, topBit_eq hw0 hrlt, ← hcast]
    exact congrArg some (overflow_sub (by omega) (by omega) hc (by omega) (signed_half hw0 ha) (signed_half hw0 hb)
      (by omega))
  · rw [testBit_xor_four]
    refine congrArg some (decide_eq_decide.2 ?_)
    omega

/-! ### One fixed operand -/

private theorem reports_keepingCarry {f : Flagged} {total totalSigned nibbles : Int} {carry : Option Bool}
    (h : f.Reports w total totalSigned nibbles carry) :
    (keepingCarry f).Reports w total totalSigned nibbles none :=
  ⟨h.value_eq, ⟨h.describes.zero_eq, h.describes.sign_eq, h.describes.parity_eq⟩, rfl, h.overflow_eq, h.adjust_eq⟩

private theorem one_lt_half (hw : 8 ≤ w) : (1 : Int) < 2 ^ (w - 1) := by
  obtain ⟨k, rfl⟩ : ∃ k, w = k + 2 := ⟨w - 2, by omega⟩
  have hpos : (0 : Int) < 2 ^ k := Int.pow_pos (by decide)
  show (1 : Int) < 2 ^ (k + 1)
  rw [Int.pow_succ]
  omega

private theorem signed_one (hw : 8 ≤ w) : signed w (1 : Nat) = 1 := by
  have hhalf := one_lt_half hw
  exact signed_eq_self (by omega) (by omega) (by omega)

theorem reports_increment (hw : 8 ≤ w) (ha : a < 2 ^ w) :
    (increment w a).Reports w (a + 1) (signed w a + 1) (a % 16 + 1) none := by
  have hsum := reports_add hw ha (Nat.one_lt_two_pow (by omega)) (Nat.zero_le 1)
  rw [signed_one hw] at hsum
  simpa [increment] using reports_keepingCarry hsum

theorem reports_decrement (hw : 8 ≤ w) (ha : a < 2 ^ w) :
    (decrement w a).Reports w (a - 1) (signed w a - 1) (a % 16 - 1) none := by
  have hdiff := reports_sub hw ha (Nat.one_lt_two_pow (by omega)) (Nat.zero_le 1)
  rw [signed_one hw] at hdiff
  simpa [decrement] using reports_keepingCarry hdiff

theorem reports_negate (hw : 8 ≤ w) (ha : a < 2 ^ w) :
    (negate w a).Reports w (-a) (-signed w a) (-(a % 16)) (some (decide (a ≠ 0))) := by
  have hhalf := one_lt_half hw
  have hzero : signed w (0 : Nat) = 0 := signed_eq_self (by omega) (by omega) (by omega)
  have hdiff := reports_sub hw (Nat.two_pow_pos w) ha (Nat.zero_le 1)
  rw [hzero] at hdiff
  simpa [negate, Nat.pos_iff_ne_zero] using hdiff

/-! ### Comparisons -/

/-- What the flags of a difference say of the words, whatever the flags were before. -/
theorem sub_compares (hw : 8 ≤ w) (ha : a < 2 ^ w) (hb : b < 2 ^ w) (s : Flags) :
    (((sub w a b 0).flags.apply s).zero = true ↔ a = b) ∧ (((sub w a b 0).flags.apply s).carry = true ↔ a < b) ∧
      (((sub w a b 0).flags.apply s).sign ≠ ((sub w a b 0).flags.apply s).overflow ↔ signed w a < signed w b) := by
  have hw0 : 0 < w := by omega
  have hhalf := two_pow_eq_double hw0
  have hword : ((2 ^ w : Nat) : Int) = 2 ^ w := by simp
  have hcast : ((2 ^ (w - 1) : Nat) : Int) = 2 ^ (w - 1) := by simp
  have hreports := reports_sub hw ha hb (Nat.zero_le 1)
  have hwrap := wraps_once hreports.value_eq (by omega) (by omega)
  have hlt : (sub w a b 0).value < 2 ^ w := truncate_lt w _
  have hx := signed_half hw0 ha
  have hy := signed_half hw0 hb
  simp only [FlagEffect.apply, hreports.describes.zero_eq, hreports.describes.sign_eq, hreports.carry_eq,
    hreports.overflow_eq, Option.getD_some, decide_eq_true_eq, ne_eq, decide_eq_decide]
  refine ⟨by omega, by omega, ?_⟩
  split at hx <;> split at hy <;> omega

end Word

end LongMode

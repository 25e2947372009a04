import LongMode.Arith.Word

/-!
# Two's complement readings

* `le_signed` and `signed_lt`: a reading lies within its width.
* `signed_eq_self`: a number within the width is its own reading.
* `signed_signed_of_le`: so a reading may be read again at a larger width.
* `signed_inj`: two integers have the same reading exactly when their low bits agree.
* `signed_natCast`: the reading of a word, which is zero for the word zero only (`signed_ne_zero`).
* `truncate_signed` and `signed_truncate`: a word and its reading determine each other.
-/

namespace LongMode

variable {w : Nat}

theorem two_pow_pred (hw : 0 < w) : (2 : Int) ^ w = 2 * 2 ^ (w - 1) := by
  obtain ⟨k, rfl⟩ : ∃ k, w = k + 1 := ⟨w - 1, by omega⟩
  rw [Int.pow_succ, Int.mul_comm, Nat.add_sub_cancel]

theorem le_signed (hw : 0 < w) (z : Int) : -2 ^ (w - 1) ≤ signed w z := by
  have hp := two_pow_pred hw
  have h0 : (0 : Int) < 2 ^ w := Int.pow_pos (by decide)
  have h1 := Int.emod_nonneg z (Int.ne_of_gt h0)
  simp only [signed]
  split <;> omega

theorem signed_lt (hw : 0 < w) (z : Int) : signed w z < 2 ^ (w - 1) := by
  have hp := two_pow_pred hw
  have h0 : (0 : Int) < 2 ^ w := Int.pow_pos (by decide)
  have h1 := Int.emod_lt_of_pos z h0
  simp only [signed]
  split <;> omega

theorem signed_emod (w : Nat) (z : Int) : signed w z % 2 ^ w = z % 2 ^ w := by
  simp only [signed]
  split
  · exact Int.emod_emod_of_dvd z (Int.dvd_refl _)
  · rw [Int.sub_emod_right, Int.emod_emod_of_dvd z (Int.dvd_refl _)]

theorem signed_congr {y z : Int} (h : y % 2 ^ w = z % 2 ^ w) : signed w y = signed w z := by
  simp only [signed, h]

theorem signed_inj {y z : Int} : signed w y = signed w z ↔ y % 2 ^ w = z % 2 ^ w := by
  refine ⟨fun h => ?_, signed_congr⟩
  rw [← signed_emod w y, h, signed_emod]

theorem signed_eq_self {z : Int} (hw : 0 < w) (hl : -2 ^ (w - 1) ≤ z) (hu : z < 2 ^ (w - 1)) : signed w z = z := by
  have hp := two_pow_pred hw
  simp only [signed]
  by_cases hz : 0 ≤ z
  · rw [Int.emod_eq_of_lt hz (by omega), if_pos hu]
  · have hm : z % 2 ^ w = z + 2 ^ w := by
      rw [← Int.add_emod_right, Int.emod_eq_of_lt (by omega) (by omega)]
    rw [hm, if_neg (by omega)]
    omega

theorem signed_signed (w : Nat) (z : Int) : signed w (signed w z) = signed w z := signed_congr (signed_emod w z)

theorem signed_signed_of_le {w' : Nat} (hw : 0 < w) (h : w ≤ w') (z : Int) : signed w' (signed w z) = signed w z := by
  have hhalf : 2 ^ (w - 1) ≤ 2 ^ (w' - 1) := Nat.pow_le_pow_right (by decide) (by omega)
  have hcast : ((2 ^ (w - 1) : Nat) : Int) = 2 ^ (w - 1) := by simp
  have hcast' : ((2 ^ (w' - 1) : Nat) : Int) = 2 ^ (w' - 1) := by simp
  have hl := le_signed hw z
  have hu := signed_lt hw z
  exact signed_eq_self (by omega) (by omega) (by omega)

theorem natCast_truncate (w : Nat) (z : Int) : (truncate w z : Int) = z % 2 ^ w :=
  Int.toNat_of_nonneg (Int.emod_nonneg z (Int.ne_of_gt (Int.pow_pos (by decide))))

theorem truncate_signed (w : Nat) (z : Int) : truncate w (signed w z) = truncate w z := by
  unfold truncate
  rw [signed_emod]

theorem signed_truncate (w : Nat) (z : Int) : signed w (truncate w z) = signed w z := by
  apply signed_congr
  rw [natCast_truncate, Int.emod_emod_of_dvd z (Int.dvd_refl _)]

theorem signed_natCast {n : Nat} (h : n < 2 ^ w) :
    signed w n = if n < 2 ^ (w - 1) then (n : Int) else n - 2 ^ w := by
  have hcast : ((2 ^ w : Nat) : Int) = 2 ^ w := by simp
  have hhalf : ((2 ^ (w - 1) : Nat) : Int) = 2 ^ (w - 1) := by simp
  have hmod : (n : Int) % 2 ^ w = n := Int.emod_eq_of_lt (by omega) (by omega)
  simp only [signed, hmod]
  split <;> split <;> omega

theorem signed_ne_zero {n : Nat} (hn : n ≠ 0) (hlt : n < 2 ^ w) : signed w n ≠ 0 := by
  intro h
  have hcast : ((2 ^ w : Nat) : Int) = 2 ^ w := by simp
  rw [signed_natCast hlt] at h
  split at h <;> omega

theorem fitsSigned_iff {z : Int} : fitsSigned w z = true ↔ -2 ^ (w - 1) ≤ z ∧ z < 2 ^ (w - 1) := by
  simp [fitsSigned]

end LongMode

import LongMode.Register.View

/-!
# Views and the bits of their cells

Which bits of a cell a view reads, and what becomes of each bit when an integer is stored through a view.

* `View.testBit_read`: a bit that is read is a bit of the view's field.
* `View.testBit_write`: a bit of the view's field takes the matching bit of the integer; any other bit is cleared if
  the view has 32 bits or more, and stays otherwise.
* `View.testBit_write_of_not_writes`: so a bit that the view does not write keeps its value.
-/

namespace LongMode

namespace View

/-- The bit belongs to the field that the view reads. -/
def Holds (v : View) (k : Nat) : Prop := v.shift ≤ k ∧ k < v.shift + v.bits

/-- A write to the view decides the bit: it lies in the field, or the view has 32 bits and clears the rest of the
cell. -/
def Writes (v : View) (k : Nat) : Prop := v.Holds k ∨ v.width = .dword

instance (v : View) (k : Nat) : Decidable (v.Holds k) := inferInstanceAs (Decidable (_ ∧ _))

instance (v : View) (k : Nat) : Decidable (v.Writes k) := inferInstanceAs (Decidable (_ ∨ _))

/-- The field of a view lies in its cell. -/
theorem shift_add_bits_le (v : View) : v.shift + v.bits ≤ 64 := by
  rcases v with ⟨c, _ | _ | _ | _⟩ | b <;> simp [shift, bits, width, Width.bits, Width.bytes]

theorem testBit_read (v : View) (cell k : Nat) :
    (v.read cell).testBit k = (decide (k < v.bits) && cell.testBit (v.shift + k)) := by
  rw [read, Nat.testBit_mod_two_pow, Nat.testBit_div_two_pow, Nat.add_comm]

theorem testBit_replaceField {bits value : Nat} (h : value < 2 ^ bits) (cell shift k : Nat) :
    (replaceField cell shift bits value).testBit k =
      if shift ≤ k ∧ k < shift + bits then value.testBit (k - shift) else cell.testBit k := by
  have hlow : cell % 2 ^ shift < 2 ^ shift := Nat.mod_lt _ (Nat.two_pow_pos shift)
  -- the field and what lies below it fill the bits up to the end of the field
  have hfield : 2 ^ shift * value + cell % 2 ^ shift < 2 ^ (shift + bits) := by
    have hnext : 2 ^ shift * (value + 1) ≤ 2 ^ shift * 2 ^ bits := Nat.mul_le_mul_left _ h
    rw [Nat.mul_succ] at hnext
    rw [Nat.pow_add]
    omega
  have hsum : replaceField cell shift bits value =
      2 ^ (shift + bits) * (cell / 2 ^ (shift + bits)) + (2 ^ shift * value + cell % 2 ^ shift) := by
    rw [replaceField, Nat.mul_comm value, Nat.mul_comm (cell / _), Nat.add_assoc]
  rw [hsum, Nat.testBit_two_pow_mul_add _ hfield, Nat.testBit_two_pow_mul_add _ hlow]
  rcases Nat.lt_or_ge k shift with hk | hk
  · have hin : k < shift + bits := by omega
    rw [if_pos hin, if_pos hk, if_neg (by omega), Nat.testBit_mod_two_pow, decide_eq_true hk, Bool.true_and]
  · by_cases hend : k < shift + bits
    · rw [if_pos hend, if_neg (by omega), if_pos ⟨hk, hend⟩]
    · rw [if_neg hend, if_neg (by omega), Nat.testBit_div_two_pow]
      congr 1
      omega

/-- A write replaces the view's field: in the cell itself, or in a cleared one where the view is wide enough to clear
what stands around its field. -/
private theorem exists_write_eq (v : View) (cell : Nat) (value : Int) :
    ∃ base, v.write cell value = replaceField base v.shift v.bits (truncate v.bits value) ∧
      ∀ k, ¬ v.Holds k → base.testBit k = if v.Writes k ∨ 64 ≤ k then false else cell.testBit k := by
  have hwide : ∀ n : Nat, replaceField 0 0 v.bits n = n := by
    intro n
    simp [replaceField]
  have hnarrow : v.width ≠ .dword → ∀ k, ¬ v.Holds k →
      (cell % 2 ^ 64).testBit k = if v.Writes k ∨ 64 ≤ k then false else cell.testBit k := by
    intro hd k hk
    have hkept : ¬ v.Writes k := not_or.2 ⟨hk, hd⟩
    rw [Nat.testBit_mod_two_pow]
    by_cases h64 : 64 ≤ k
    · rw [if_pos (Or.inr h64), decide_eq_false (by omega), Bool.false_and]
    · rw [if_neg (not_or.2 ⟨hkept, h64⟩), decide_eq_true (by omega), Bool.true_and]
  rcases v with ⟨c, _ | _ | _ | _⟩ | b
  · exact ⟨cell % 2 ^ 64, rfl, hnarrow (show Width.byte ≠ .dword by decide)⟩
  · exact ⟨cell % 2 ^ 64, rfl, hnarrow (show Width.word ≠ .dword by decide)⟩
  · refine ⟨0, (hwide _).symm, fun k _ => ?_⟩
    have hclear : (low c .dword).Writes k := Or.inr rfl
    rw [if_pos (Or.inl hclear), Nat.zero_testBit]
  · refine ⟨0, (hwide _).symm, fun k hk => ?_⟩
    -- all bits of the cell belong to the field
    have h64 : 64 ≤ k := by
      simp only [Holds, shift, bits, width, Width.bits, Width.bytes] at hk
      omega
    rw [if_pos (Or.inr h64), Nat.zero_testBit]
  · exact ⟨cell % 2 ^ 64, rfl, hnarrow (show Width.byte ≠ .dword by decide)⟩

theorem testBit_write (v : View) (cell : Nat) (value : Int) (k : Nat) :
    (v.write cell value).testBit k =
      if v.Holds k then (truncate v.bits value).testBit (k - v.shift)
      else if v.Writes k ∨ 64 ≤ k then false else cell.testBit k := by
  obtain ⟨base, hwrite, hbase⟩ := exists_write_eq v cell value
  rw [hwrite, testBit_replaceField (truncate_lt v.bits value)]
  by_cases hk : v.Holds k
  · exact (if_pos hk).trans (if_pos hk).symm
  · rw [if_neg hk, ← hbase k hk]
    exact if_neg hk

theorem testBit_write_of_not_writes {v : View} {k : Nat} (hk : ¬ v.Writes k) (h64 : k < 64) (cell : Nat)
    (value : Int) : (v.write cell value).testBit k = cell.testBit k := by
  have hfield : ¬ v.Holds k := fun h => hk (Or.inl h)
  have hclear : ¬ (v.Writes k ∨ 64 ≤ k) := by
    rintro (h | h)
    · exact hk h
    · omega
  rw [testBit_write, if_neg hfield, if_neg hclear]

end View

end LongMode

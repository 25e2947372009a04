import LongMode.Instances

/-!
# Words of a given width

A word of width `w` is a natural number below `2 ^ w`.

* `truncate` keeps the low `w` bits of an integer, in two's complement;
* `signed` is the two's complement reading of the low `w` bits;
* `fits` says that an integer has a reading as a word of that width, signed or unsigned.
-/

namespace LongMode

/-- The low `w` bits of an integer. -/
def truncate (w : Nat) (z : Int) : Nat := (z % 2 ^ w).toNat

/-- The two's complement reading of the low `w` bits. -/
def signed (w : Nat) (z : Int) : Int :=
  let n := z % 2 ^ w
  if n < 2 ^ (w - 1) then n else n - 2 ^ w

/-- Within `w` bits as a signed or as an unsigned number. -/
def fits (w : Nat) (z : Int) : Bool := -2 ^ (w - 1) ≤ z && z < 2 ^ w

/-- Within `w` bits as a signed number. -/
def fitsSigned (w : Nat) (z : Int) : Bool := -2 ^ (w - 1) ≤ z && z < 2 ^ (w - 1)

theorem truncate_lt (w : Nat) (z : Int) : truncate w z < 2 ^ w := by
  have h : (0 : Int) < 2 ^ w := Int.pow_pos (by decide)
  have h1 := Int.emod_nonneg z (Int.ne_of_gt h)
  have h2 := Int.emod_lt_of_pos z h
  unfold truncate
  have h3 : ((2 ^ w : Nat) : Int) = 2 ^ w := by simp
  omega

theorem truncate_of_lt {w n : Nat} (h : n < 2 ^ w) : truncate w (n : Int) = n := by
  have h3 : ((2 ^ w : Nat) : Int) = 2 ^ w := by simp
  unfold truncate
  rw [Int.emod_eq_of_lt (by omega) (by omega)]
  simp

end LongMode

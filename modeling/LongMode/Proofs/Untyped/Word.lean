import LongMode.Arith.Product
import LongMode.Arith.Shift
import LongMode.MachineCode.Layout
import LongMode.Proofs.Arith.Signed
import LongMode.Proofs.Untyped.Basic

/-!
# Words whose width may be zero

The operations on words once more, at the steps where they can be stuck: the highest bit of a word without bits, a shift
by a difference of counts, a division.  At a positive width, and where the divisor is not zero, they are those of the
library.

* `fits_eq`, `fitsSigned_eq`, `signed_eq`, `signedBytes_eq`: readings and bytes of integers.
* `shift_eq` and `rotate_eq`: no count goes below zero.
* `divide_eq` and `divideSigned_eq`: a divisor that is not zero has a reading that is not zero.
-/

namespace LongMode.Untyped

variable {ε α : Type} {w : Nat}

/-- A result that depends on the highest bit of a word. -/
def atSignBit (w : Nat) (a : α) : Partial ε α := do
  let _ ← signBit w
  return a

def fits (w : Nat) (z : Int) : Partial ε Bool := do
  return -(← signBit w) ≤ z && z < 2 ^ w

def fitsSigned (w : Nat) (z : Int) : Partial ε Bool := do
  let bound ← signBit w
  return -bound ≤ z && z < bound

def signed (w : Nat) (z : Int) : Partial ε Int := do
  let n := z % 2 ^ w
  return if n < (← signBit w) then n else n - 2 ^ w

def signedBytes (size : Nat) (z : Int) : Partial ε (List UInt8) := toBytes (z % 2 ^ (8 * size)) size

/-- The bit that a shift moves to the lowest place. -/
def bitAt (z n : Int) : Partial ε Bool := do return (← shiftRight z n) % 2 == 1

/-- The word and its carry after a shift by a positive count, and the overflow flag. -/
def move (k : Shift) (w value : Nat) (n : Int) : Partial ε (Nat × Bool × Bool) :=
  match k with
  | .left => do
    let result := value * 2 ^ n.toNat % 2 ^ w
    let carry ← if n ≤ w then bitAt value (w - n) else pure false
    return (result, carry, topBit w result != carry)
  | .right => do
    let result ← shiftRight value n
    return (result.toNat, ← bitAt value (n - 1), topBit w value)
  | .arithmetic => do
    let z ← signed w value
    let result ← shiftRight z n
    return (truncate w result, ← bitAt z (n - 1), false)

def shift (k : Shift) (w value count : Nat) : Partial ε Flagged := do
  let n := maskedCount w count
  if n = 0 then return ⟨value, FlagEffect.none⟩
  let (result, carry, overflow) ← move k w value n
  atSignBit w ⟨result, { resultFlags w result with
    carry := some carry, overflow := some overflow, adjust := some false }⟩

/-- The low `n` bits and the others of a word change places. -/
def turn (k : Rotation) (w value n : Nat) : Partial ε Nat :=
  match k with
  | .left => do return (value * 2 ^ n ||| (← shiftRight value ((w : Int) - n)).toNat) % 2 ^ w
  | .right => do return (value / 2 ^ n ||| (← shiftLeft value ((w : Int) - n)).toNat) % 2 ^ w

def rotate (k : Rotation) (w value count : Nat) : Partial ε Flagged := do
  if maskedCount w count = 0 then return ⟨value, FlagEffect.none⟩
  if w = 0 then stuck .zeroDivisor
  let n := maskedCount w count % w
  let result ← if n = 0 then pure value else turn k w value n
  let (carry, overflow) := match k with
    | .left => (result.testBit 0, topBit w result != result.testBit 0)
    | .right => (topBit w result, topBit w result != topBit (w - 1) result)
  atSignBit w ⟨result, { FlagEffect.none with carry := some carry, overflow := some overflow }⟩

def divide (w dividend divisor : Nat) : Partial ε Division := do
  let q ← quotient dividend divisor
  return ⟨if q < 2 ^ w then some q.toNat else none, dividend % divisor⟩

/-- The quotient of the absolute values, with its sign. -/
def divideSigned (w dividend divisor : Nat) : Partial ε Division := do
  let n ← signed (2 * w) dividend
  let d ← signed w divisor
  let positive ← quotient n.natAbs d.natAbs
  let q := if (n < 0) = (d < 0) then positive else -positive
  let kept ← fitsSigned w q
  return ⟨if kept then some (truncate w q) else none, truncate w (n - q * d)⟩

/-! ### Positive widths -/

theorem atSignBit_eq (h : 0 < w) (a : α) : (atSignBit w a : Partial ε α) = .ok a := by
  rw [atSignBit, signBit_of_pos h]
  rfl

theorem fits_eq (h : 0 < w) (z : Int) : (fits w z : Partial ε Bool) = .ok (LongMode.fits w z) := by
  rw [fits, signBit_of_pos h]
  rfl

theorem fitsSigned_eq (h : 0 < w) (z : Int) : (fitsSigned w z : Partial ε Bool) = .ok (LongMode.fitsSigned w z) := by
  rw [fitsSigned, signBit_of_pos h]
  rfl

theorem signed_eq (h : 0 < w) (z : Int) : (signed w z : Partial ε Int) = .ok (LongMode.signed w z) := by
  rw [signed, signBit_of_pos h]
  rfl

theorem signedBytes_eq (size : Nat) (z : Int) :
    (signedBytes size z : Partial ε (List UInt8)) = .ok (LongMode.signedBytes size z) := by
  have hpow : (256 : Int) ^ size = 2 ^ (8 * size) := by rw [Int.pow_mul]; rfl
  have hpos : (0 : Int) < 2 ^ (8 * size) := Int.pow_pos (by decide)
  rw [signedBytes, toBytes, hpow,
    if_pos ⟨Int.emod_nonneg z (Int.ne_of_gt hpos), Int.emod_lt_of_pos z hpos⟩]
  rfl

/-! ### Shifts -/

private theorem shiftRight_natCast (z : Int) (n : Nat) : (shiftRight z n : Partial ε Int) = .ok (z / 2 ^ n) := by
  rw [shiftRight, if_neg (by omega), Int.toNat_natCast]

private theorem bitAt_natCast (z : Int) (n : Nat) : (bitAt z n : Partial ε Bool) = .ok (z / 2 ^ n % 2 == 1) := by
  rw [bitAt, shiftRight_natCast]
  rfl

private theorem bitAt_word (value n : Nat) : (bitAt (value : Int) n : Partial ε Bool) = .ok (value.testBit n) := by
  have hbit : ((value : Int) / 2 ^ n % 2 == 1) = value.testBit n := by
    have hcast : (value : Int) / 2 ^ n = (value / 2 ^ n : Nat) := by simp
    rw [hcast, Nat.testBit_eq_decide_div_mod_eq, Bool.eq_iff_iff, beq_iff_eq, decide_eq_true_eq]
    omega
  rw [bitAt_natCast, hbit]

private theorem move_eq (h : 0 < w) (k : Shift) (value : Nat) {n : Nat} (hn : 0 < n) :
    (move k w value n : Partial ε _) = .ok (k.move w value n) := by
  have hpred : (n : Int) - 1 = (n - 1 : Nat) := by omega
  cases k with
  | left =>
    by_cases hnw : n ≤ w
    · have hdiff : (w : Int) - n = (w - n : Nat) := by omega
      have hcarry : (bitAt value ((w : Int) - n) : Partial ε Bool) = .ok (value.testBit (w - n)) := by
        rw [hdiff, bitAt_word]
      simp only [move, Shift.move, Int.ofNat_le, hnw, if_true, hcarry, Int.toNat_natCast, decide_true, Bool.true_and]
      rfl
    · simp only [move, Shift.move, Int.ofNat_le, hnw, if_false, Int.toNat_natCast, decide_false, Bool.false_and]
      rfl
  | right =>
    have hresult : ((value : Int) / 2 ^ n).toNat = value / 2 ^ n := by
      have hcast : (value : Int) / 2 ^ n = (value / 2 ^ n : Nat) := by simp
      rw [hcast, Int.toNat_natCast]
    simp only [move, Shift.move, hpred, shiftRight_natCast, bitAt_word, ← hresult]
    rfl
  | arithmetic =>
    simp only [move, Shift.move, hpred, signed_eq h, shiftRight_natCast, bitAt_natCast]
    rfl

theorem shift_eq (h : 0 < w) (k : Shift) (value count : Nat) :
    (shift k w value count : Partial ε Flagged) = .ok (k.apply w value count) := by
  unfold shift Shift.apply
  dsimp only
  by_cases hn : maskedCount w count = 0
  · rw [if_pos hn, if_pos hn]
    rfl
  · rw [if_neg hn, if_neg hn, move_eq h k value (Nat.pos_of_ne_zero hn)]
    exact atSignBit_eq h _

private theorem turn_eq {n : Nat} (hn : n < w) (k : Rotation) (value : Nat) :
    (turn k w value n : Partial ε Nat) = .ok (k.turn w value n) := by
  have hdiff : (w : Int) - n = (w - n : Nat) := by omega
  cases k with
  | left =>
    have hresult : ((value : Int) / 2 ^ (w - n)).toNat = value / 2 ^ (w - n) := by
      have hcast : (value : Int) / 2 ^ (w - n) = (value / 2 ^ (w - n) : Nat) := by simp
      rw [hcast, Int.toNat_natCast]
    simp only [turn, Rotation.turn, hdiff, shiftRight_natCast, ← hresult]
    rfl
  | right =>
    have hshift : (shiftLeft (value : Int) (w - n : Nat) : Partial ε Int) = .ok (value * 2 ^ (w - n) : Nat) := by
      rw [shiftLeft, if_neg (by omega), Int.toNat_natCast]
      simp
    simp only [turn, Rotation.turn, hdiff, hshift]
    rfl

theorem rotate_eq (h : 0 < w) (k : Rotation) (value count : Nat) :
    (rotate k w value count : Partial ε Flagged) = .ok (k.apply w value count) := by
  unfold rotate Rotation.apply
  by_cases hn : maskedCount w count = 0
  · rw [if_pos hn, if_pos hn]
    rfl
  · have hturn : (turn k w value (maskedCount w count % w) : Partial ε Nat) =
        .ok (k.turn w value (maskedCount w count % w)) := turn_eq (Nat.mod_lt _ h) k value
    rw [if_neg hn, if_neg hn, if_neg (Nat.ne_of_gt h)]
    dsimp only
    rw [hturn]
    by_cases hz : maskedCount w count % w = 0
    · rw [if_pos hz, if_pos hz]
      cases k <;> exact atSignBit_eq h _
    · rw [if_neg hz, if_neg hz]
      cases k <;> exact atSignBit_eq h _

/-! ### Quotients -/

theorem divide_eq {dividend divisor : Nat} (hd : divisor ≠ 0) :
    (divide w dividend divisor : Partial ε Division) = .ok (Word.divide w dividend divisor) := by
  have hq : (dividend : Int) / divisor = (dividend / divisor : Nat) := by simp
  have hlt : ((dividend / divisor : Nat) : Int) < 2 ^ w ↔ dividend / divisor < 2 ^ w := by
    rw [← Int.ofNat_lt]
    simp
  rw [divide, quotient, if_neg (by omega), hq]
  simp only [Word.divide, bind, Except.bind, hlt, Int.toNat_natCast]
  rfl

/-- Division truncated toward zero, by way of absolute values. -/
private theorem tdiv_eq (n d : Int) :
    n.tdiv d = if (n < 0) = (d < 0) then ((n.natAbs / d.natAbs : Nat) : Int) else -(n.natAbs / d.natAbs : Nat) := by
  have hnat : ∀ m : Nat, ¬((m : Int) < 0) := fun m => by omega
  rcases n with m | m <;> rcases d with k | k <;>
    simp [Int.tdiv, hnat, Int.negSucc_lt_zero, Int.natAbs_negSucc]

theorem divideSigned_eq (h : 0 < w) {dividend divisor : Nat} (hd : divisor ≠ 0) (hlt : divisor < 2 ^ w) :
    (divideSigned w dividend divisor : Partial ε Division) = .ok (Word.divideSigned w dividend divisor) := by
  have hreading : ((LongMode.signed w divisor).natAbs : Int) ≠ 0 := by
    have hne := LongMode.signed_ne_zero hd hlt
    omega
  unfold divideSigned Word.divideSigned
  rw [signed_eq (by omega), signed_eq h]
  simp only [bind, Except.bind, quotient, if_neg hreading, fitsSigned_eq h, tdiv_eq]
  rfl

end LongMode.Untyped

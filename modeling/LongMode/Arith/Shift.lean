import LongMode.Arith.Sum

/-!
# Shifts and rotations of words

The count is reduced first: modulo 64 for words of 64 bits and modulo 32 for shorter ones, so that it may still exceed
the width of a short word.  A reduced count of zero returns the word and defines no flag.
-/

namespace LongMode

inductive Shift
  | left | right | arithmetic
  deriving DecidableEq, Repr

inductive Rotation
  | left | right
  deriving DecidableEq, Repr

/-- The reduced count. -/
def maskedCount (w count : Nat) : Nat := count % (if w = 64 then 64 else 32)

/-- An operation that no shift, or no rotation, has the name of. -/
structure UnknownOperation where
  family : String
  name : String
  deriving DecidableEq, Repr

def UnknownOperation.message (e : UnknownOperation) : String := "Unknown " ++ e.family ++ ": " ++ e.name

namespace Shift

def name : Shift → String
  | left => "shl"
  | right => "shr"
  | arithmetic => "sar"

def ofName? (s : String) : Option Shift := [left, right, arithmetic].find? (fun k => k.name == s)

/-- The word and its carry after a shift by a positive count, and the overflow flag. -/
def move (k : Shift) (w value n : Nat) : Nat × Bool × Bool :=
  match k with
  | left =>
    let result := value * 2 ^ n % 2 ^ w
    let carry := n ≤ w && value.testBit (w - n)
    (result, carry, topBit w result != carry)
  | right => (value / 2 ^ n, value.testBit (n - 1), topBit w value)
  | arithmetic =>
    let z := signed w value
    (truncate w (z / 2 ^ n), z / 2 ^ (n - 1) % 2 == 1, false)

def apply (k : Shift) (w value count : Nat) : Flagged :=
  let n := maskedCount w count
  if n = 0 then ⟨value, FlagEffect.none⟩
  else
    let (result, carry, overflow) := k.move w value n
    ⟨result, { resultFlags w result with
      carry := some carry, overflow := some overflow, adjust := some false }⟩

/-- The shift of a given name.  The name does not matter when nothing is shifted. -/
def applyNamed (s : String) (w value count : Nat) : Except UnknownOperation Flagged :=
  match ofName? s with
  | some k => .ok (k.apply w value count)
  | none => if maskedCount w count = 0 then .ok ⟨value, FlagEffect.none⟩ else .error ⟨"shift", s⟩

end Shift

namespace Rotation

def name : Rotation → String
  | left => "rol"
  | right => "ror"

def ofName? (s : String) : Option Rotation := [left, right].find? (fun k => k.name == s)

/-- The low `n` bits and the others of a word of width `w` change places. -/
def turn (k : Rotation) (w value n : Nat) : Nat :=
  match k with
  | left => (value * 2 ^ n ||| value / 2 ^ (w - n)) % 2 ^ w
  | right => (value / 2 ^ n ||| value * 2 ^ (w - n)) % 2 ^ w

/-- Carry is the bit that went round last; overflow compares it with its neighbour at the top. -/
def apply (k : Rotation) (w value count : Nat) : Flagged :=
  if maskedCount w count = 0 then ⟨value, FlagEffect.none⟩
  else
    let n := maskedCount w count % w
    let result := if n = 0 then value else k.turn w value n
    let (carry, overflow) := match k with
      | left => (result.testBit 0, topBit w result != result.testBit 0)
      | right => (topBit w result, topBit w result != topBit (w - 1) result)
    ⟨result, { FlagEffect.none with carry := some carry, overflow := some overflow }⟩

/-- The rotation of a given name.  The name does not matter when nothing is rotated. -/
def applyNamed (s : String) (w value count : Nat) : Except UnknownOperation Flagged :=
  match ofName? s with
  | some k => .ok (k.apply w value count)
  | none => if maskedCount w count = 0 then .ok ⟨value, FlagEffect.none⟩ else .error ⟨"rotate", s⟩

end Rotation

end LongMode

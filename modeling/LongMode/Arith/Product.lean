import LongMode.Arith.Sum

/-!
# Products and quotients of words

A product of two words of width `w` has two halves of that width.  A quotient divides a word of width `2 * w` by one of
width `w`; it is missing when it does not fit `w` bits.  Signed quotients are truncated toward zero.
-/

namespace LongMode

structure Product where
  low : Nat
  high : Nat
  flags : FlagEffect
  deriving DecidableEq, Repr

structure Division where
  quotient : Option Nat
  remainder : Nat
  deriving DecidableEq, Repr

namespace Word

/-- Carry and overflow both tell whether the low half loses anything. -/
def productFlags (w low : Nat) (lossy : Bool) : FlagEffect :=
  { resultFlags w low with carry := some lossy, overflow := some lossy, adjust := some false }

def multiply (w a b : Nat) : Product :=
  let full := a * b
  let low := full % 2 ^ w
  let high := full / 2 ^ w
  ⟨low, high, productFlags w low (high != 0)⟩

def multiplySigned (w a b : Nat) : Product :=
  let full := signed w a * signed w b
  let low := truncate w full
  let high := truncate w (full / 2 ^ w)
  ⟨low, high, productFlags w low (full != signed w low)⟩

/-- The quotient is kept only below `2 ^ w`. -/
def divide (w dividend divisor : Nat) : Division :=
  let quotient := dividend / divisor
  ⟨if quotient < 2 ^ w then some quotient else none, dividend % divisor⟩

/-- The remainder has the sign of the dividend. -/
def divideSigned (w dividend divisor : Nat) : Division :=
  let n := signed (2 * w) dividend
  let d := signed w divisor
  let quotient := n.tdiv d
  ⟨if fitsSigned w quotient then some (truncate w quotient) else none, truncate w (n - quotient * d)⟩

end Word

end LongMode

import LongMode.Arith.Word
import LongMode.Flag

/-!
# Sums and differences of words

Each operation takes words of width `w` and yields a word of that width together with the flags that it defines.

* Carry is the carry out of the word, or the borrow into it.
* Overflow and adjust are read off single bits: overflow compares the top bits of the operands and of the result,
  adjust is bit 4 of their exclusive or.
* An increment and a decrement leave carry alone.
-/

namespace LongMode

/-- A word together with the flags that its computation defines. -/
structure Flagged where
  value : Nat
  flags : FlagEffect
  deriving DecidableEq, Repr

/-- An even number of the low eight bits are set. -/
def evenParity (n : Nat) : Bool := (List.range 8).countP (fun i => n.testBit i) % 2 == 0

/-- The top bit of a word. -/
def topBit (w n : Nat) : Bool := n.testBit (w - 1)

/-- Zero, sign and parity of a result. -/
def resultFlags (w result : Nat) : FlagEffect :=
  { FlagEffect.none with
    zero := some (result == 0), sign := some (topBit w result), parity := some (evenParity result) }

namespace Word

def add (w a b carry : Nat) : Flagged :=
  let full := a + b + carry
  let result := full % 2 ^ w
  { value := result
    flags := { resultFlags w result with
      carry := some (2 ^ w ≤ full)
      overflow := some (topBit w a == topBit w b && topBit w a != topBit w result)
      adjust := some ((a ^^^ b ^^^ result).testBit 4) } }

def sub (w a b borrow : Nat) : Flagged :=
  let full : Int := a - b - borrow
  let result := truncate w full
  { value := result
    flags := { resultFlags w result with
      carry := some (full < 0)
      overflow := some (topBit w a != topBit w b && topBit w a != topBit w result)
      adjust := some ((a ^^^ b ^^^ result).testBit 4) } }

/-- The same result, with carry left alone. -/
def keepingCarry (r : Flagged) : Flagged := { r with flags := { r.flags with carry := none } }

def increment (w a : Nat) : Flagged := keepingCarry (add w a 1 0)

def decrement (w a : Nat) : Flagged := keepingCarry (sub w a 1 0)

def negate (w a : Nat) : Flagged := sub w 0 a 0

/-- The flags after a bitwise operation: no carry, no overflow, adjust cleared. -/
def logicFlags (w result : Nat) : FlagEffect :=
  { resultFlags w result with carry := some false, overflow := some false, adjust := some false }

end Word

end LongMode

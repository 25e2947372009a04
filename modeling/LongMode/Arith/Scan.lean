/-!
# Bit scans

The positions of the lowest and of the highest set bit of a number; zero has neither.
-/

namespace LongMode

def lowestSetBit? (n : Nat) : Option Nat :=
  if n = 0 then none
  else if n % 2 = 1 then some 0
  else (lowestSetBit? (n / 2)).map (· + 1)
termination_by n

def highestSetBit? (n : Nat) : Option Nat := if n = 0 then none else some n.log2

end LongMode

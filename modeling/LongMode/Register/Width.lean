/-!
# Operand widths

The four widths of general-purpose operands.  A width has a keyword, by which memory operands name it.
-/

namespace LongMode

inductive Width
  | byte | word | dword | qword
  deriving DecidableEq, Repr

namespace Width

def all : List Width := [byte, word, dword, qword]

def bytes : Width → Nat
  | byte => 1
  | word => 2
  | dword => 4
  | qword => 8

def bits (w : Width) : Nat := 8 * w.bytes

/-- The widths of the registers that most two-operand instructions write. -/
def wordOrMore : List Width := [word, dword, qword]

def keyword : Width → String
  | byte => "byte"
  | word => "word"
  | dword => "dword"
  | qword => "qword"

end Width

end LongMode

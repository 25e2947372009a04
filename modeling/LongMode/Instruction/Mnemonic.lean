import LongMode.Text.Letter

/-!
# Mnemonics

The closed set of operations, each with its name and the numbers of operands that it takes.  Three mnemonics have a
second spelling.  Names are read in any letter case.
-/

namespace LongMode

inductive Mnemonic
  | mov | movzx | movsx | movsxd | lea | xchg | push | pop | cmove | cmovne | cqo | cdq | nop
  | add | adc | sub | sbb | inc | dec | neg | mul | imul | div | idiv | cmp
  | and | or | xor | not | test
  | shl | shr | sar | rol | ror
  | bsf | bsr
  | paddd
  deriving DecidableEq, Repr

namespace Mnemonic

def all : List Mnemonic :=
  [mov, movzx, movsx, movsxd, lea, xchg, push, pop, cmove, cmovne, cqo, cdq, nop,
    add, adc, sub, sbb, inc, dec, neg, mul, imul, div, idiv, cmp,
    and, or, xor, not, test, shl, shr, sar, rol, ror, bsf, bsr, paddd]

def name : Mnemonic → String
  | mov => "mov" | movzx => "movzx" | movsx => "movsx" | movsxd => "movsxd" | lea => "lea" | xchg => "xchg"
  | push => "push" | pop => "pop" | cmove => "cmove" | cmovne => "cmovne" | cqo => "cqo" | cdq => "cdq"
  | nop => "nop" | add => "add" | adc => "adc" | sub => "sub" | sbb => "sbb" | inc => "inc" | dec => "dec"
  | neg => "neg" | mul => "mul" | imul => "imul" | div => "div" | idiv => "idiv" | cmp => "cmp" | and => "and"
  | or => "or" | xor => "xor" | not => "not" | test => "test" | shl => "shl" | shr => "shr" | sar => "sar"
  | rol => "rol" | ror => "ror" | bsf => "bsf" | bsr => "bsr" | paddd => "paddd"

/-- Second spellings. -/
def aliases : List (String × Mnemonic) := [("sal", shl), ("cmovz", cmove), ("cmovnz", cmovne)]

/-- Every spelling with the mnemonic that it stands for. -/
def spellings : List (String × Mnemonic) := aliases ++ all.map fun m => (m.name, m)

/-- The mnemonic that a word spells, in any letter case. -/
def ofWord? (s : List Char) : Option Mnemonic := (spellings.find? fun p => Text.spells s p.1).map Prod.snd

/-- The mnemonic of a given name. -/
def ofName? (s : String) : Option Mnemonic := all.find? fun m => m.name == s

/-- The admissible numbers of operands, in ascending order. -/
def operandCounts : Mnemonic → List Nat
  | cqo | cdq | nop => [0]
  | push | pop | inc | dec | neg | mul | div | idiv | not => [1]
  | imul => [1, 2, 3]
  | _ => [2]

/-- Shifts and rotations, whose second operand counts bits. -/
def isShift : Mnemonic → Bool
  | shl | shr | sar | rol | ror => true
  | _ => false

/-- Operations on vector registers. -/
def isPacked : Mnemonic → Bool
  | paddd => true
  | _ => false

/-- Moves whose source is narrower than the destination. -/
def isWidening : Mnemonic → Bool
  | movzx | movsx | movsxd => true
  | _ => false

end Mnemonic

end LongMode

import LongMode.Assembly.Comment
import LongMode.Assembly.WidthInference
import LongMode.Instruction.Basic

/-!
# Reading instructions

An instruction is a mnemonic, then white space, then operands separated by commas; a comment may follow.  Errors are
found in this order: the mnemonic, the brackets and commas, each operand by itself, the number of operands, the width
of memory operands, the place of immediates.
-/

namespace LongMode.Assembly

/-- Jumps, calls and returns: known by name and not simulated. -/
def controlTransfers : List String :=
  ["jmp", "je", "jz", "jne", "jnz", "jg", "jge", "jl", "jle", "ja", "jae", "jb", "jbe", "js", "jns", "call", "ret",
    "loop"]

def readMnemonic (word : List Char) (column : Nat) : Except ParseError Mnemonic :=
  match Mnemonic.ofWord? word with
  | some m => .ok m
  | none =>
    if controlTransfers.any (Text.spells word) then .error ⟨.controlTransfer word, word, column⟩
    else .error ⟨.unknownInstruction word, word, column⟩

/-- Reads one instruction. -/
def parse (text : List Char) : Except ParseError Instruction := do
  let line := withoutComment text
  let column := (line.takeWhile Text.isBlank).length
  let word := Text.firstWord (Text.trimLeft line)
  if word = [] then .error ⟨.emptyInstruction, [], 0⟩
  let m ← readMnemonic word column
  let pieces ← splitOperands (column + word.length) (line.drop (column + word.length))
  let operands ← pieces.mapM Piece.operand
  if !m.operandCounts.contains operands.length then .error ⟨.operandCount m operands.length, word, column⟩
  return ⟨m, ← resolveWidths m operands⟩

/-- An instruction with the text that it was read from, without the white space around it. -/
structure Statement where
  instruction : Instruction
  source : List Char
  deriving DecidableEq, Repr

def Statement.read (text : List Char) : Except ParseError Statement :=
  (parse text).map fun i => ⟨i, Text.trim text⟩

end LongMode.Assembly

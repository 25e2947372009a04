import LongMode.Instruction.Mnemonic
import LongMode.Instruction.Operand

/-!
# Instructions

A mnemonic with its operands, the destination first.  `Instruction.text` writes an instruction in canonical form: the
mnemonic, a space, and the operands separated by commas.
-/

namespace LongMode

structure Instruction where
  mnemonic : Mnemonic
  operands : List Operand
  deriving DecidableEq, Repr

namespace Instruction

def text (i : Instruction) : String :=
  match i.operands with
  | [] => i.mnemonic.name
  | operands => i.mnemonic.name ++ " " ++ ", ".intercalate (operands.map Operand.text)

def usesVector (i : Instruction) : Bool := i.operands.any Operand.isVector

def memoryOperands (i : Instruction) : Nat := i.operands.countP Operand.isMemory

end Instruction

end LongMode

import LongMode.Instruction.Basic
import LongMode.Machine.Basic

/-!
# Faults

Why an instruction does not execute.  A refusal is about its operands alone; division faults and accesses outside
memory depend on the machine as well.
-/

namespace LongMode

inductive FaultKind
  | unsupportedMnemonic | divideByZero | divideOverflow | memoryOutOfBounds | widthMismatch | invalidOperands
  deriving DecidableEq, Repr

def FaultKind.text : FaultKind → String
  | unsupportedMnemonic => "unsupported mnemonic"
  | divideByZero => "divide by zero"
  | divideOverflow => "divide overflow"
  | memoryOutOfBounds => "memory out of bounds"
  | widthMismatch => "width mismatch"
  | invalidOperands => "invalid operands"

/-- What is wrong with the operands of an instruction. -/
inductive Refusal
  | operandCount (given : Nat)
  | misplacedVector
  | severalMemoryOperands
  | immediate (value : Int) (bits : Nat)
  | immediateInPlace
  | widthsDiffer (first second : Nat)
  | destinationRegister
  | registerWidth (bits : Nat)
  | zeroExtension (source destination : Nat)
  | signExtension (source destination : Nat)
  | signExtensionSource
  | addressSource
  | pushWidth
  | popWidth
  | factor
  | countRegister
  | countOperand
  | packedOperands
  deriving DecidableEq, Repr

namespace Refusal

def kind : Refusal → FaultKind
  | immediate _ _ | widthsDiffer _ _ | registerWidth _ | zeroExtension _ _ | signExtension _ _
  | signExtensionSource | pushWidth | popWidth => .widthMismatch
  | _ => .invalidOperands

def message : Refusal → String
  | operandCount given => "wrong operand count " ++ toString given
  | misplacedVector => "xmm registers are only valid for packed instructions"
  | severalMemoryOperands => "more than one memory operand"
  | immediate value bits => "immediate " ++ Text.decimal value ++ " does not fit " ++ toString bits ++ " bits"
  | immediateInPlace => "operand must be a register or memory"
  | widthsDiffer first second => "operand widths differ (" ++ toString first ++ " vs " ++ toString second ++ ")"
  | destinationRegister => "destination must be a register"
  | registerWidth bits => toString bits ++ "-bit register not allowed"
  | zeroExtension source destination =>
    "cannot zero-extend " ++ toString source ++ " to " ++ toString destination ++ " bits"
  | signExtension source destination =>
    "cannot sign-extend " ++ toString source ++ " to " ++ toString destination ++ " bits"
  | signExtensionSource => "movsxd source must be 32-bit"
  | addressSource => "lea source must be a memory operand"
  | pushWidth => "push operand must be 64-bit"
  | popWidth => "pop operand must be 64-bit"
  | factor => "third operand must be an immediate"
  | countRegister => "shift count register must be cl"
  | countOperand => "shift count must be an immediate or cl"
  | packedOperands => "paddd operands must be xmm registers"

end Refusal

inductive Fault
  | noHandler (mnemonic : Mnemonic)
  | refused (instruction : Instruction) (refusal : Refusal)
  | divideByZero (instruction : Instruction)
  | divideOverflow (instruction : Instruction)
  | outOfBounds (access : OutOfBounds)
  deriving DecidableEq, Repr

namespace Fault

def kind : Fault → FaultKind
  | noHandler _ => .unsupportedMnemonic
  | refused _ r => r.kind
  | divideByZero _ => .divideByZero
  | divideOverflow _ => .divideOverflow
  | outOfBounds _ => .memoryOutOfBounds

def detail : Fault → String
  | noHandler m => "No handler for " ++ m.name
  | refused i r => i.text ++ ": " ++ r.message
  | divideByZero i => i.text ++ ": division by zero"
  | divideOverflow i => i.text ++ ": quotient too large"
  | outOfBounds a => a.message

def message (f : Fault) : String := f.kind.text ++ ": " ++ f.detail

end Fault

end LongMode

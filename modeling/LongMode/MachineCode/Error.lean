import LongMode.Instruction.Basic

/-!
# Encoding errors

Why an instruction has no machine code here: its form is not one of those supported, or a number in it is too large for
its field.
-/

namespace LongMode

inductive EncodeErrorKind
  | unsupportedForm | immediateOutOfRange
  deriving DecidableEq, Repr

def EncodeErrorKind.text : EncodeErrorKind → String
  | unsupportedForm => "unsupported form"
  | immediateOutOfRange => "immediate out of range"

inductive EncodeCause
  | misplacedVector
  | operandCount
  | immediateInPlace
  | memoryToMemory
  | widthsDiffer (first second : Nat)
  | destinationRegister (widths : List Width)
  | signExtensionSource
  | extension (source destination : Nat)
  | addressSource
  | pushWidth
  | popWidth
  | factor
  | countRegister
  | countOperand
  | packedOperands
  | highByteWithRex
  | displacement (value : Int)
  | immediate (value : Int) (bits : Nat)
  | wideImmediate (value : Int)
  deriving DecidableEq, Repr

namespace EncodeCause

def kind : EncodeCause → EncodeErrorKind
  | displacement _ | immediate _ _ | wideImmediate _ => .immediateOutOfRange
  | _ => .unsupportedForm

def message : EncodeCause → String
  | misplacedVector => "xmm registers are only valid for packed instructions"
  | operandCount => "wrong operand count"
  | immediateInPlace => "operand must be a register or memory"
  | memoryToMemory => "memory-to-memory form does not exist"
  | widthsDiffer first second => "operand widths differ (" ++ toString first ++ " vs " ++ toString second ++ ")"
  | destinationRegister widths =>
    "destination must be a " ++ "/".intercalate (widths.map fun w => toString w.bits) ++ "-bit register"
  | signExtensionSource => "movsxd source must be 32-bit"
  | extension source destination =>
    "cannot extend " ++ toString source ++ " to " ++ toString destination ++ " bits"
  | addressSource => "lea source must be a memory operand"
  | pushWidth => "only 64-bit push is supported"
  | popWidth => "only 64-bit pop is supported"
  | factor => "third operand must be an immediate of the destination width"
  | countRegister => "shift count register must be cl"
  | countOperand => "shift count must be an immediate or cl"
  | packedOperands => "paddd operands must be xmm registers"
  | highByteWithRex => "ah/bh/ch/dh cannot be encoded with a REX prefix"
  | displacement value => "displacement " ++ Text.signedHex value ++ " does not fit 32 bits"
  | immediate value bits => "immediate " ++ Text.decimal value ++ " does not fit " ++ toString bits ++ " bits"
  | wideImmediate value => "immediate " ++ Text.decimal value ++ " is not a sign-extended 32-bit value"

end EncodeCause

structure EncodeError where
  instruction : Instruction
  cause : EncodeCause
  deriving DecidableEq, Repr

def EncodeError.message (e : EncodeError) : String :=
  e.cause.kind.text ++ ": " ++ e.instruction.text ++ ": " ++ e.cause.message

end LongMode

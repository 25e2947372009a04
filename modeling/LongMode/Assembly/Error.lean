import LongMode.Instruction.Mnemonic
import LongMode.Text.Numeral
import LongMode.Text.Quoted

/-!
# Reading errors

Why a text is no instruction.  An error has a cause, the token that it is about, and the column of that token,
counted in code points from zero.  The wording of every cause is in `ParseCause.message`.
-/

namespace LongMode

inductive ParseErrorKind
  | unknownMnemonic | unknownRegister | malformedOperand | operandCountMismatch
  deriving DecidableEq, Repr

def ParseErrorKind.text : ParseErrorKind → String
  | unknownMnemonic => "unknown mnemonic"
  | unknownRegister => "unknown register"
  | malformedOperand => "malformed operand"
  | operandCountMismatch => "operand count mismatch"

inductive ParseCause
  | emptyInstruction
  | controlTransfer (word : List Char)
  | unknownInstruction (word : List Char)
  | operandCount (mnemonic : Mnemonic) (given : Nat)
  | unbalancedClose
  | unbalancedOpen
  | emptyOperand
  | sizeWithoutMemory (operand : List Char)
  | unknownRegister (name : List Char)
  | unreadableOperand (operand : List Char)
  | malformedMemory (operand : List Char)
  | malformedSum (operand : List Char)
  | malformedProduct (body : List Char)
  | badScale (factor : Nat)
  | subtractedRegister (term : List Char)
  | malformedTerm (name : List Char)
  | narrowAddressRegister (name : List Char)
  | tooManyAddressRegisters (operand : List Char)
  | noBase (operand : List Char)
  | stackPointerIndex
  | unknownSize
  | immediateDestination (value : Int)
  deriving DecidableEq, Repr

namespace ParseCause

def kind : ParseCause → ParseErrorKind
  | emptyInstruction | controlTransfer _ | unknownInstruction _ => .unknownMnemonic
  | operandCount _ _ => .operandCountMismatch
  | unknownRegister _ => .unknownRegister
  | _ => .malformedOperand

def message : ParseCause → String
  | emptyInstruction => "Empty instruction"
  | controlTransfer word => "Control transfer is not supported: " ++ String.ofList word
  | unknownInstruction word => "Unknown instruction: " ++ String.ofList word
  | operandCount m given =>
    m.name ++ " takes " ++ " or ".intercalate (m.operandCounts.map toString) ++ " operand(s), got " ++ toString given
  | unbalancedClose => "Unbalanced ']'"
  | unbalancedOpen => "Unbalanced '['"
  | emptyOperand => "Empty operand"
  | sizeWithoutMemory operand => "Size keyword must be followed by a memory operand: " ++ String.ofList operand
  | unknownRegister name => "Unknown register: " ++ String.ofList name
  | unreadableOperand operand => "Cannot parse operand: " ++ String.ofList operand
  | malformedMemory operand => "Malformed memory operand: " ++ String.ofList operand
  | malformedSum operand => "Malformed address expression: " ++ String.ofList operand
  | malformedProduct body => "Malformed scaled index: " ++ String.ofList body
  | badScale factor => "Scale must be 1, 2, 4 or 8, got " ++ toString factor
  | subtractedRegister term => "Registers cannot be subtracted: " ++ String.ofList term
  | malformedTerm name => "Malformed address term: " ++ String.ofList name
  | narrowAddressRegister name => "Address registers must be 64-bit: " ++ String.ofList name
  | tooManyAddressRegisters operand => "Too many address registers: " ++ String.ofList operand
  | noBase operand => "Memory operand needs a base register or displacement: " ++ String.ofList operand
  | stackPointerIndex => "rsp cannot be used as an index"
  | unknownSize => "Operand size not specified; use byte/word/dword/qword ptr"
  | immediateDestination value => "Destination cannot be an immediate: " ++ Text.decimal value

end ParseCause

/-- A cause with the token that it is about. -/
structure Complaint where
  cause : ParseCause
  token : List Char
  deriving DecidableEq, Repr

structure ParseError where
  cause : ParseCause
  token : List Char
  column : Nat
  deriving DecidableEq, Repr

def Complaint.located (c : Complaint) (column : Nat) : ParseError := ⟨c.cause, c.token, column⟩

def ParseError.message (e : ParseError) : String :=
  e.cause.kind.text ++ ": " ++ e.cause.message ++ " (token " ++ Text.quoted e.token ++ " at column " ++
    toString e.column ++ ")"

end LongMode

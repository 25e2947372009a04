import LongMode.Arith.Shift
import LongMode.Execution.Fault

/-!
# Operations

What an instruction does once its operands are accepted.  An operation names places, sources and register views whose
widths fit together; `Instruction.operation` finds it or says what is wrong with the operands.  Neither depends on a
machine.
-/

namespace LongMode

inductive Bitwise
  | and | or | xor
  deriving DecidableEq, Repr

inductive Scan
  | forward | reverse
  deriving DecidableEq, Repr

inductive Operation
  | nothing
  | move (destination : Place) (source : Source)
  | extend (destination : View) (source : Place)
  | extendSigned (destination : View) (source : Place)
  | loadAddress (destination : View) (address : Address)
  | exchange (first second : Place)
  | push (source : Source)
  | pop (destination : Place)
  | moveIf (zero : Bool) (destination : View) (source : Place)
  | spreadSign (width : Width)
  | add (withCarry : Bool) (destination : Place) (source : Source)
  | subtract (withBorrow : Bool) (destination : Place) (source : Source)
  | compare (destination : Place) (source : Source)
  | increment (destination : Place)
  | decrement (destination : Place)
  | negate (destination : Place)
  | complement (destination : Place)
  | multiply (source : Place)
  | multiplySigned (source : Place)
  | multiplyInto (destination : View) (first second : Source)
  | divide (source : Place)
  | divideSigned (source : Place)
  | bitwise (op : Bitwise) (destination : Place) (source : Source)
  | test (destination : Place) (source : Source)
  | shift (kind : Shift) (destination : Place) (count : Source)
  | rotate (kind : Rotation) (destination : Place) (count : Source)
  | scan (kind : Scan) (destination : View) (source : Place)
  | addPacked (destination source : VectorRegister)
  deriving DecidableEq, Repr

namespace Operation

/-! ### Operand checks -/

def requirePlace : Operand → Except Refusal Place
  | .register v => .ok (.register v)
  | .memory l => .ok (.memory l)
  | .immediate _ _ => .error .immediateInPlace
  | .vector _ => .error .misplacedVector

def requireSource : Operand → Except Refusal Source
  | .register v => .ok (.register v)
  | .memory l => .ok (.memory l)
  | .immediate z bits => .ok (.immediate z bits)
  | .vector _ => .error .misplacedVector

def requireRegister (widths : List Width) (o : Operand) : Except Refusal View :=
  match o with
  | .register v => if widths.contains v.width then .ok v else .error (.registerWidth v.bits)
  | .vector _ => .error (.registerWidth VectorRegister.bits)
  | _ => .error .destinationRegister

def requireSameWidth (first second : Operand) : Except Refusal Unit :=
  if first.bits = second.bits then .ok () else .error (.widthsDiffer first.bits second.bits)

/-- A destination and a source of one width. -/
def requirePair (destination source : Operand) : Except Refusal (Place × Source) := do
  let place ← requirePlace destination
  requireSameWidth destination source
  return (place, ← requireSource source)

/-- A register destination and a register or memory source of its width. -/
def requireRegisterPair (destination source : Operand) : Except Refusal (View × Place) := do
  let v ← requireRegister Width.wordOrMore destination
  let place ← requirePlace source
  requireSameWidth destination source
  return (v, place)

/-- A shift counts by cl or by an immediate. -/
def requireCount : Operand → Except Refusal Source
  | .register v => if v = .low .rcx .byte then .ok (.register v) else .error .countRegister
  | .immediate z bits => .ok (.immediate z bits)
  | _ => .error .countOperand

/-! ### One mnemonic or group at a time -/

def ofPair (f : Place → Source → Operation) (destination source : Operand) : Except Refusal Operation := do
  let (place, src) ← requirePair destination source
  return f place src

def ofPlace (f : Place → Operation) (operand : Operand) : Except Refusal Operation := (requirePlace operand).map f

def ofRegisterPair (f : View → Place → Operation) (destination source : Operand) : Except Refusal Operation := do
  let (v, place) ← requireRegisterPair destination source
  return f v place

def isByteOrWord (w : Width) : Bool := w == .byte || w == .word

def ofZeroExtension (destination source : Operand) : Except Refusal Operation := do
  let v ← requireRegister Width.wordOrMore destination
  let src ← requirePlace source
  if isByteOrWord src.width && src.width.bits < v.bits then return .extend v src
  else .error (.zeroExtension src.width.bits v.bits)

def ofSignExtension (destination source : Operand) : Except Refusal Operation := do
  let src ← requirePlace source
  let v ← requireRegister Width.wordOrMore destination
  if isByteOrWord src.width && src.width.bits < v.bits then return .extendSigned v src
  else .error (.signExtension src.width.bits v.bits)

def ofDwordSignExtension (destination source : Operand) : Except Refusal Operation := do
  let src ← requirePlace source
  let v ← requireRegister [.qword] destination
  if src.width = .dword then return .extendSigned v src else .error .signExtensionSource

def ofLoadAddress (destination source : Operand) : Except Refusal Operation := do
  let v ← requireRegister Width.wordOrMore destination
  match source with
  | .memory l => return .loadAddress v l.address
  | _ => .error .addressSource

def ofExchange (first second : Operand) : Except Refusal Operation := do
  let b ← requirePlace second
  let a ← requirePlace first
  requireSameWidth first second
  return .exchange a b

def ofPush (source : Operand) : Except Refusal Operation :=
  if source.bits = 64 then (requireSource source).map .push else .error .pushWidth

def ofPop (destination : Operand) : Except Refusal Operation := do
  let place ← requirePlace destination
  if place.width = .qword then return .pop place else .error .popWidth

def ofMultiplyInto (destination source : Operand) : Except Refusal Operation := do
  let (v, place) ← requireRegisterPair destination source
  return .multiplyInto v (.register v) place.source

def ofMultiplyByConstant (destination source factor : Operand) : Except Refusal Operation := do
  let v ← requireRegister Width.wordOrMore destination
  let place ← requirePlace source
  match factor with
  | .immediate z bits =>
    requireSameWidth destination source
    requireSameWidth destination factor
    return .multiplyInto v place.source (.immediate z bits)
  | _ => .error .factor

def ofCount (f : Place → Source → Operation) (destination count : Operand) : Except Refusal Operation := do
  let place ← requirePlace destination
  return f place (← requireCount count)

def ofPackedAdd : Operand → Operand → Except Refusal Operation
  | .vector d, .vector s => .ok (.addPacked d s)
  | _, _ => .error .packedOperands

end Operation

namespace Instruction

/-- The checks that every instruction has to pass: number of operands, vector registers, memory operands and the range
of immediates. -/
def check (i : Instruction) : Except Refusal Unit := do
  if !i.mnemonic.operandCounts.contains i.operands.length then .error (.operandCount i.operands.length)
  if i.usesVector && !i.mnemonic.isPacked then .error .misplacedVector
  if 1 < i.memoryOperands then .error .severalMemoryOperands
  i.operands.forM fun
    | .immediate z bits => if fits bits z then .ok () else .error (.immediate z bits)
    | _ => .ok ()

/-- What an instruction with checked operands does. -/
def operation (i : Instruction) : Except Refusal Operation :=
  match i.mnemonic, i.operands with
  | .mov, [d, s] => Operation.ofPair .move d s
  | .movzx, [d, s] => Operation.ofZeroExtension d s
  | .movsx, [d, s] => Operation.ofSignExtension d s
  | .movsxd, [d, s] => Operation.ofDwordSignExtension d s
  | .lea, [d, s] => Operation.ofLoadAddress d s
  | .xchg, [a, b] => Operation.ofExchange a b
  | .push, [s] => Operation.ofPush s
  | .pop, [d] => Operation.ofPop d
  | .cmove, [d, s] => Operation.ofRegisterPair (.moveIf true) d s
  | .cmovne, [d, s] => Operation.ofRegisterPair (.moveIf false) d s
  | .cqo, [] => .ok (.spreadSign .qword)
  | .cdq, [] => .ok (.spreadSign .dword)
  | .nop, [] => .ok .nothing
  | .add, [d, s] => Operation.ofPair (.add false) d s
  | .adc, [d, s] => Operation.ofPair (.add true) d s
  | .sub, [d, s] => Operation.ofPair (.subtract false) d s
  | .sbb, [d, s] => Operation.ofPair (.subtract true) d s
  | .cmp, [d, s] => Operation.ofPair .compare d s
  | .inc, [d] => Operation.ofPlace .increment d
  | .dec, [d] => Operation.ofPlace .decrement d
  | .neg, [d] => Operation.ofPlace .negate d
  | .not, [d] => Operation.ofPlace .complement d
  | .mul, [s] => Operation.ofPlace .multiply s
  | .imul, [s] => Operation.ofPlace .multiplySigned s
  | .imul, [d, s] => Operation.ofMultiplyInto d s
  | .imul, [d, s, f] => Operation.ofMultiplyByConstant d s f
  | .div, [s] => Operation.ofPlace .divide s
  | .idiv, [s] => Operation.ofPlace .divideSigned s
  | .and, [d, s] => Operation.ofPair (.bitwise .and) d s
  | .or, [d, s] => Operation.ofPair (.bitwise .or) d s
  | .xor, [d, s] => Operation.ofPair (.bitwise .xor) d s
  | .test, [d, s] => Operation.ofPair .test d s
  | .shl, [d, c] => Operation.ofCount (.shift .left) d c
  | .shr, [d, c] => Operation.ofCount (.shift .right) d c
  | .sar, [d, c] => Operation.ofCount (.shift .arithmetic) d c
  | .rol, [d, c] => Operation.ofCount (.rotate .left) d c
  | .ror, [d, c] => Operation.ofCount (.rotate .right) d c
  | .bsf, [d, s] => Operation.ofRegisterPair (.scan .forward) d s
  | .bsr, [d, s] => Operation.ofRegisterPair (.scan .reverse) d s
  | .paddd, [d, s] => Operation.ofPackedAdd d s
  | _, operands => .error (.operandCount operands.length)

end Instruction

end LongMode

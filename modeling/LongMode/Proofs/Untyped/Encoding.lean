import LongMode.MachineCode.Encode
import LongMode.Proofs.MachineCode.Checks
import LongMode.Proofs.Untyped.Word

/-!
# Encoding untyped instructions

The encoder on names and numbers.  It looks up views, scales and opcodes in tables, unpacks the operands that its
mnemonic should have, and puts numbers together to bytes.
-/

namespace LongMode.Untyped

/-! ### Fields -/

section

variable {ε : Type}

def bytes (l : List Int) : Partial ε (List UInt8) := l.mapM byte

/-- The fields of the scales. -/
def scaleFields : List (Nat × Int) := [(1, 0), (2, 1), (4, 2), (8, 3)]

namespace Operand

/-- The view that a register operand names. -/
def view : Operand → Partial ε View
  | register name _ => viewNamed name
  | _ => stuck .missingName

/-- The low three bits of the number of a register. -/
def field (o : Operand) : Partial ε Int := do return (← o.view).hardwareNumber % 8

def isAccumulator : Operand → Partial ε Bool
  | register name _ => do
    let v ← viewNamed name
    return v.cell.number.val == 0 && !v.isHighByte
  | _ => .ok false

end Operand

/-- A register that is not there needs no extension bit. -/
def isExtended (name : Option String) : Partial ε Bool :=
  match name with
  | some name => do return (← viewNamed name).isExtended
  | none => .ok false

/-- The extension bits X and B that the operand of the r/m field asks for. -/
def extensions : Option Operand → Partial ε (Bool × Bool)
  | some (.register name _) => do return (false, ← isExtended (some name))
  | some (.memory base index ..) => do return (← isExtended index, ← isExtended base)
  | _ => .ok (false, false)

/-- The extension bit of a register operand. -/
def extension : Option Operand → Partial ε Bool
  | some o => do return (← o.view).isExtended
  | none => .ok false

/-- The mode and the bytes of a displacement. -/
def displacement (base : Int) (disp : Int) : Partial ε (Int × List UInt8) := do
  if disp = 0 ∧ base ≠ 5 then return (0, [])
  else if ← fitsSigned 8 disp then return (1, ← signedBytes 1 disp)
  else return (2, ← signedBytes 4 disp)

end

abbrev Coding (α : Type) := Partial (Notice EncodeErrorKind) α

/-- Says why an instruction has no machine code. -/
def Instruction.reject {α : Type} (i : Instruction) (c : EncodeCause) : Coding α := i.refuse c.kind c.message

def memoryModRm (i : Instruction) (reg : Int) (base index : Option String) (scale : Nat) (disp : Int) :
    Coding (List UInt8) := do
  if !(← fitsSigned 32 disp) then i.reject (.displacement disp)
  let base ← base.mapM viewNamed
  let index ← index.mapM viewNamed
  let scaleField ← find scaleFields scale
  let indexField := (index.map fun v => (v.cell.number.val : Int) % 8).getD 4
  match base with
  | none => return (← bytes [8 * reg + 4, 64 * scaleField + 8 * indexField + 5]) ++ (← signedBytes 4 disp)
  | some v =>
    let baseField := (v.cell.number.val : Int) % 8
    let (mode, disp) ← displacement baseField disp
    if index.isNone ∧ baseField ≠ 4 then return (← bytes [64 * mode + 8 * reg + baseField]) ++ disp
    else return (← bytes [64 * mode + 8 * reg + 4, 64 * scaleField + 8 * indexField + baseField]) ++ disp

/-- What an encoding is put together from. -/
structure Frame where
  opcode : List Int
  width : Nat
  rm : Option Operand := none
  reg : Option Operand := none
  digit : Option Int := none
  opcodeRegister : Option Operand := none
  immediate : List UInt8 := []
  qwordByDefault : Bool := false

/-- The opcode, with the register that its last byte may hold. -/
def opcodeBytes (f : Frame) : Coding (List UInt8) :=
  match f.opcodeRegister with
  | none => bytes f.opcode
  | some o => do return (← bytes f.opcode.dropLast) ++ [← byte ((← last f.opcode) + (← o.field))]

def regField (f : Frame) : Coding Int :=
  match f.reg with
  | some o => o.field
  | none => .ok (f.digit.getD 0)

def modRmBytes (i : Instruction) (f : Frame) : Coding (List UInt8) :=
  match f.rm with
  | none => .ok []
  | some rm => do
    let reg ← regField f
    match rm with
    | .register .. => return [← byte (0xC0 + 8 * reg + (← rm.field))]
    | .memory base index scale disp _ => memoryModRm i reg base index scale disp
    | .immediate .. => stuck .missingName

def rexBytes (i : Instruction) (f : Frame) : Coding (List UInt8) := do
  let views ← ((f.rm.toList ++ f.reg.toList ++ f.opcodeRegister.toList).filter Operand.isRegister).mapM Operand.view
  let w := f.width == 64 && !f.qwordByDefault
  let r ← extension f.reg
  let (x, b) ← extensions f.rm
  let b := b || (← extension f.opcodeRegister)
  if w || r || x || b || views.any View.needsRex then
    if views.any View.isHighByte then i.reject .highByteWithRex
    else return [← byte (0x40 + 8 * w.toNat + 4 * r.toNat + 2 * x.toNat + b.toNat)]
  else return []

def operandSizeBytes (f : Frame) : Coding (List UInt8) := if f.width = 16 then bytes [0x66] else .ok []

/-- Prefixes, opcode, ModRM with what follows it, and immediate. -/
def assemble (i : Instruction) (f : Frame) : Coding (List UInt8) := do
  let operandSize ← operandSizeBytes f
  let rex ← rexBytes i f
  let opcode ← opcodeBytes f
  let modRm ← modRmBytes i f
  return operandSize ++ rex ++ opcode ++ modRm ++ f.immediate

/-! ### Operand checks -/

def immediateValue (i : Instruction) (z : Int) (w : Nat) : Coding Int := do
  if ← fits w z then signed w z else i.reject (.immediate z w)

def wideImmediate (i : Instruction) (z : Int) (w : Nat) : Coding (List UInt8) := do
  if w = 16 then signedBytes 2 z
  else if ← fitsSigned 32 z then signedBytes 4 z
  else i.reject (.wideImmediate z)

def checkPlace (i : Instruction) (o : Operand) : Coding Unit :=
  if o.isImmediate then i.reject .immediateInPlace else .ok ()

def checkSameWidth (i : Instruction) (first second : Operand) : Coding Unit :=
  if first.width = second.width then .ok () else i.reject (.widthsDiffer first.width second.width)

def checkPair (i : Instruction) : Coding Unit := do
  let (d, s) ← double i.operands
  checkPlace i d
  if d.isMemory && s.isMemory then i.reject .memoryToMemory
  checkSameWidth i d s

def checkRegister (i : Instruction) (widths : List Width) (o : Operand) : Coding Unit :=
  if o.isRegister && (widths.map Width.bits).contains o.width then .ok () else i.reject (.destinationRegister widths)

/-! ### Tables -/

def arithmeticDigits : List (Mnemonic × Int) :=
  [(.add, 0), (.or, 1), (.adc, 2), (.sbb, 3), (.and, 4), (.sub, 5), (.xor, 6), (.cmp, 7)]

def unaryDigits : List (Mnemonic × Int) := [(.not, 2), (.neg, 3), (.mul, 4), (.imul, 5), (.div, 6), (.idiv, 7)]

def shiftDigits : List (Mnemonic × Int) := [(.rol, 0), (.ror, 1), (.shl, 4), (.shr, 5), (.sar, 7)]

def registerSourceOpcodes : List (Mnemonic × List Int) :=
  [(.cmove, [0x0F, 0x44]), (.cmovne, [0x0F, 0x45]), (.bsf, [0x0F, 0xBC]), (.bsr, [0x0F, 0xBD])]

def extensionOpcodes : List ((Mnemonic × Nat) × Int) :=
  [((.movzx, 8), 0xB6), ((.movzx, 16), 0xB7), ((.movsx, 8), 0xBE), ((.movsx, 16), 0xBF)]

def fixedCodes : List (Mnemonic × List Int) := [(.cqo, [0x48, 0x99]), (.cdq, [0x99]), (.nop, [0x90])]

/-! ### One mnemonic or group at a time -/

def encodeArithmetic (i : Instruction) : Coding (List UInt8) := do
  checkPair i
  let (d, s) ← double i.operands
  let digit ← find arithmeticDigits i.mnemonic
  let w := d.width
  match s with
  | .register .. =>
    assemble i { opcode := [if w = 8 then 8 * digit else 8 * digit + 1], width := w, rm := some d, reg := some s }
  | .memory .. =>
    assemble i { opcode := [if w = 8 then 8 * digit + 2 else 8 * digit + 3], width := w, rm := some s, reg := some d }
  | .immediate z _ =>
    let value ← immediateValue i z w
    if w = 8 then
      let immediate ← signedBytes 1 value
      if ← d.isAccumulator then assemble i { opcode := [8 * digit + 4], width := w, immediate }
      else assemble i { opcode := [0x80], width := w, rm := some d, digit := some digit, immediate }
    else if ← fitsSigned 8 value then
      let immediate ← signedBytes 1 value
      assemble i { opcode := [0x83], width := w, rm := some d, digit := some digit, immediate }
    else
      let immediate ← wideImmediate i value w
      if ← d.isAccumulator then assemble i { opcode := [8 * digit + 5], width := w, immediate }
      else assemble i { opcode := [0x81], width := w, rm := some d, digit := some digit, immediate }

def encodeTest (i : Instruction) : Coding (List UInt8) := do
  checkPair i
  let (d, s) ← double i.operands
  let w := d.width
  match s with
  | .register .. => assemble i { opcode := [if w = 8 then 0x84 else 0x85], width := w, rm := some d, reg := some s }
  | .memory .. => assemble i { opcode := [if w = 8 then 0x84 else 0x85], width := w, rm := some s, reg := some d }
  | .immediate z _ =>
    let value ← immediateValue i z w
    let immediate ← if w = 8 then signedBytes 1 value else wideImmediate i value w
    if ← d.isAccumulator then assemble i { opcode := [if w = 8 then 0xA8 else 0xA9], width := w, immediate }
    else
      assemble i { opcode := [if w = 8 then 0xF6 else 0xF7], width := w, rm := some d, digit := some 0, immediate }

def encodeMove (i : Instruction) : Coding (List UInt8) := do
  checkPair i
  let (d, s) ← double i.operands
  let w := d.width
  match s with
  | .register .. => assemble i { opcode := [if w = 8 then 0x88 else 0x89], width := w, rm := some d, reg := some s }
  | .memory .. => assemble i { opcode := [if w = 8 then 0x8A else 0x8B], width := w, rm := some s, reg := some d }
  | .immediate z _ =>
    let value ← immediateValue i z w
    if d.isRegister then
      let immediate ← if w = 8 then signedBytes 1 value else signedBytes (w / 8) value
      assemble i { opcode := [if w = 8 then 0xB0 else 0xB8], width := w, opcodeRegister := some d, immediate }
    else
      let immediate ← if w = 8 then signedBytes 1 value else wideImmediate i value w
      assemble i { opcode := [if w = 8 then 0xC6 else 0xC7], width := w, rm := some d, digit := some 0, immediate }

def encodeExtension (i : Instruction) : Coding (List UInt8) := do
  let (d, s) ← double i.operands
  checkPlace i s
  if i.mnemonic = .movsxd then
    checkRegister i [.qword] d
    if s.width ≠ 32 then i.reject .signExtensionSource
    else assemble i { opcode := [0x63], width := 64, rm := some s, reg := some d }
  else
    checkRegister i Width.wordOrMore d
    if (s.width = 8 ∨ s.width = 16) ∧ s.width < d.width then
      let second ← find extensionOpcodes (i.mnemonic, s.width)
      assemble i { opcode := [0x0F, second], width := d.width, rm := some s, reg := some d }
    else i.reject (.extension s.width d.width)

def encodeLoadAddress (i : Instruction) : Coding (List UInt8) := do
  let (d, s) ← double i.operands
  checkRegister i Width.wordOrMore d
  if s.isMemory then assemble i { opcode := [0x8D], width := d.width, rm := some s, reg := some d }
  else i.reject .addressSource

/-- The other one of two registers, where one is the accumulator. -/
def besideAccumulator (first second : Operand) : Coding (Option Operand) := do
  if ← first.isAccumulator then return some second
  else if ← second.isAccumulator then return some first
  else return none

/-- The register that the short form of an exchange holds. -/
def exchangePartner (first second : Operand) : Coding (Option Operand) := do
  if first.isRegister && second.isRegister && first.width != 8 then
    match ← besideAccumulator first second with
    | none => return none
    | some o => if first.width == 32 && (← o.isAccumulator) then return none else return some o
  else return none

def encodeExchange (i : Instruction) : Coding (List UInt8) := do
  let (a, b) ← double i.operands
  checkPlace i b
  checkPair i
  let w := a.width
  match ← exchangePartner a b with
  | some o => assemble i { opcode := [0x90], width := w, opcodeRegister := some o }
  | none =>
    if b.isRegister then
      assemble i { opcode := [if w = 8 then 0x86 else 0x87], width := w, rm := some a, reg := some b }
    else assemble i { opcode := [if w = 8 then 0x86 else 0x87], width := w, rm := some b, reg := some a }

def encodePush (i : Instruction) : Coding (List UInt8) := do
  let s ← single i.operands
  if s.width ≠ 64 then i.reject .pushWidth
  else match s with
    | .register .. => assemble i { opcode := [0x50], width := 64, opcodeRegister := some s, qwordByDefault := true }
    | .memory .. => assemble i { opcode := [0xFF], width := 64, rm := some s, digit := some 6, qwordByDefault := true }
    | .immediate z _ =>
      let value ← immediateValue i z 64
      if ← fitsSigned 8 value then
        let immediate ← signedBytes 1 value
        assemble i { opcode := [0x6A], width := 64, immediate, qwordByDefault := true }
      else
        let immediate ← wideImmediate i value 64
        assemble i { opcode := [0x68], width := 64, immediate, qwordByDefault := true }

def encodePop (i : Instruction) : Coding (List UInt8) := do
  let d ← single i.operands
  checkPlace i d
  if d.width ≠ 64 then i.reject .popWidth
  else if d.isRegister then
    assemble i { opcode := [0x58], width := 64, opcodeRegister := some d, qwordByDefault := true }
  else assemble i { opcode := [0x8F], width := 64, rm := some d, digit := some 0, qwordByDefault := true }

def encodeRegisterSource (i : Instruction) : Coding (List UInt8) := do
  let (d, s) ← double i.operands
  checkRegister i Width.wordOrMore d
  checkPlace i s
  checkSameWidth i d s
  let opcode ← find registerSourceOpcodes i.mnemonic
  assemble i { opcode, width := d.width, rm := some s, reg := some d }

def encodeIncrement (i : Instruction) : Coding (List UInt8) := do
  let d ← single i.operands
  checkPlace i d
  let digit := if i.mnemonic = .inc then 0 else 1
  assemble i { opcode := [if d.width = 8 then 0xFE else 0xFF], width := d.width, rm := some d, digit := some digit }

def encodeUnary (i : Instruction) : Coding (List UInt8) := do
  let d ← single i.operands
  checkPlace i d
  let digit ← find unaryDigits i.mnemonic
  assemble i { opcode := [if d.width = 8 then 0xF6 else 0xF7], width := d.width, rm := some d, digit := some digit }

def encodeMultiply (i : Instruction) : Coding (List UInt8) := do
  if i.operands.length = 1 then encodeUnary i
  else
    let d ← element i.operands 0
    let s ← element i.operands 1
    checkRegister i Width.wordOrMore d
    checkPlace i s
    checkSameWidth i d s
    if i.operands.length = 2 then assemble i { opcode := [0x0F, 0xAF], width := d.width, rm := some s, reg := some d }
    else match ← element i.operands 2 with
      | .immediate z n =>
        if n ≠ d.width then i.reject .factor
        else
          let value ← immediateValue i z d.width
          if ← fitsSigned 8 value then
            let immediate ← signedBytes 1 value
            assemble i { opcode := [0x6B], width := d.width, rm := some s, reg := some d, immediate }
          else
            let immediate ← wideImmediate i value d.width
            assemble i { opcode := [0x69], width := d.width, rm := some s, reg := some d, immediate }
      | _ => i.reject .factor

def encodeShift (i : Instruction) : Coding (List UInt8) := do
  let (d, count) ← double i.operands
  checkPlace i d
  let digit ← find shiftDigits i.mnemonic
  let w := d.width
  match count with
  | .register name _ =>
    if name ≠ "cl" then i.reject .countRegister
    else assemble i { opcode := [if w = 8 then 0xD2 else 0xD3], width := w, rm := some d, digit := some digit }
  | .immediate z _ =>
    let value := (← immediateValue i z 8) % 256
    if value = 1 then
      assemble i { opcode := [if w = 8 then 0xD0 else 0xD1], width := w, rm := some d, digit := some digit }
    else
      let immediate ← bytes [value]
      assemble i { opcode := [if w = 8 then 0xC0 else 0xC1], width := w, rm := some d, digit := some digit, immediate }
  | .memory .. => i.reject .countOperand

/-- The number of a vector register. -/
def vectorNumber {ε : Type} : Operand → Partial ε Int
  | .register name _ => do return (← vectorNamed name).number.val
  | _ => stuck .missingName

/-- The prefix that two vector registers ask for. -/
def packedRex (reg rm : Int) : Coding (List UInt8) :=
  if 8 ≤ reg ∨ 8 ≤ rm then bytes [0x40 + 4 * (decide (8 ≤ reg)).toNat + (decide (8 ≤ rm)).toNat] else .ok []

def encodePackedAdd (i : Instruction) : Coding (List UInt8) := do
  let (d, s) ← double i.operands
  if !(d.isVector && s.isVector) then i.reject .packedOperands
  else
    let reg ← vectorNumber d
    let rm ← vectorNumber s
    let rex ← packedRex reg rm
    return (← bytes [0x66]) ++ rex ++ (← bytes [0x0F, 0xFE, 0xC0 + 8 * (reg % 8) + rm % 8])

def encodeFixed (i : Instruction) : Coding (List UInt8) := do bytes (← find fixedCodes i.mnemonic)

/-- The encoder of a mnemonic. -/
def encoder : Mnemonic → Instruction → Coding (List UInt8)
  | .mov => encodeMove
  | .movzx | .movsx | .movsxd => encodeExtension
  | .lea => encodeLoadAddress
  | .xchg => encodeExchange
  | .push => encodePush
  | .pop => encodePop
  | .cmove | .cmovne | .bsf | .bsr => encodeRegisterSource
  | .cqo | .cdq | .nop => encodeFixed
  | .add | .adc | .sub | .sbb | .cmp | .and | .or | .xor => encodeArithmetic
  | .inc | .dec => encodeIncrement
  | .neg | .mul | .div | .idiv | .not => encodeUnary
  | .imul => encodeMultiply
  | .test => encodeTest
  | .shl | .shr | .sar | .rol | .ror => encodeShift
  | .paddd => encodePackedAdd

def Instruction.encode (i : Instruction) : Coding (List UInt8) :=
  if !i.mnemonic.isPacked && i.operands.any Operand.isVector then i.reject .misplacedVector
  else encoder i.mnemonic i

end LongMode.Untyped

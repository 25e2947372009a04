import LongMode.MachineCode.Fields

/-!
# Encoding

The machine code of an instruction.  Where an instruction has several encodings, the usual choice is made: a one-byte
immediate when the number fits, the short forms of the accumulator, and the form with a full immediate for a move into
a 64-bit register.  Encoding depends on the instruction alone.
-/

namespace LongMode

namespace MachineCode

/-! ### Operand checks -/

def requirePlace : Operand → Except EncodeCause Place
  | .register v => .ok (.register v)
  | .memory l => .ok (.memory l)
  | .immediate _ _ => .error .immediateInPlace
  | .vector _ => .error .misplacedVector

def requireRegister (widths : List Width) : Operand → Except EncodeCause View
  | .register v => if widths.contains v.width then .ok v else .error (.destinationRegister widths)
  | _ => .error (.destinationRegister widths)

def requireSameWidth (first second : Operand) : Except EncodeCause Unit :=
  if first.bits = second.bits then .ok () else .error (.widthsDiffer first.bits second.bits)

/-- The shapes of an instruction with a destination and a source of one width. -/
inductive Pair
  | store (destination : Place) (source : View)
  | load (destination : View) (source : Location)
  | constant (destination : Place) (value : Int)
  deriving DecidableEq, Repr

def requirePair (destination source : Operand) : Except EncodeCause Pair := do
  let place ← requirePlace destination
  if destination.isMemory && source.isMemory then .error .memoryToMemory
  requireSameWidth destination source
  match place, source with
  | p, .register v => return .store p v
  | .register v, .memory l => return .load v l
  | .memory _, .memory _ => .error .memoryToMemory
  | p, .immediate z _ => return .constant p z
  | _, .vector _ => .error .misplacedVector

/-- The signed reading of an immediate at a width. -/
def immediateValue (width : Width) (z : Int) : Except EncodeCause Int :=
  if fits width.bits z then .ok (signed width.bits z) else .error (.immediate z width.bits)

/-- Two bytes for 16-bit operands, else four that are sign-extended to the width. -/
def wideImmediate (width : Width) (z : Int) : Except EncodeCause (List UInt8) :=
  if width = .word then .ok (signedBytes 2 z)
  else if fitsSigned 32 z then .ok (signedBytes 4 z)
  else .error (.wideImmediate z)

/-- The opcode for bytes or the one for wider operands. -/
def byWidth (width : Width) (byteOpcode opcode : UInt8) : Form :=
  form [if width = .byte then byteOpcode else opcode] width

/-! ### One mnemonic or group at a time -/

/-- The eight two-operand operations that share one opcode pattern, told apart by a digit. -/
def encodeArithmetic (digit : Fin 8) (destination source : Operand) : Except EncodeCause Code := do
  let group := UInt8.ofNat (8 * digit.val)
  match ← requirePair destination source with
  | .store p v => (byWidth p.width group (group + 1)).withModRm (.register v) (.ofPlace p)
  | .load v l => (byWidth v.width (group + 2) (group + 3)).withModRm (.register v) (.address l.address)
  | .constant p z =>
    let value ← immediateValue p.width z
    if p.width = .byte then
      let bytes := signedBytes 1 value
      if p.isAccumulator then ((form [group + 4] p.width).withImmediate bytes).implied
      else ((form [0x80] p.width).withImmediate bytes).withModRm (.digit digit) (.ofPlace p)
    else if fitsSigned 8 value then
      ((form [0x83] p.width).withImmediate (signedBytes 1 value)).withModRm (.digit digit) (.ofPlace p)
    else
      let bytes ← wideImmediate p.width value
      if p.isAccumulator then ((form [group + 5] p.width).withImmediate bytes).implied
      else ((form [0x81] p.width).withImmediate bytes).withModRm (.digit digit) (.ofPlace p)

/-- A test reads both operands, so it has one form for a register and memory in either order. -/
def encodeTest (destination source : Operand) : Except EncodeCause Code := do
  match ← requirePair destination source with
  | .store p v => (byWidth p.width 0x84 0x85).withModRm (.register v) (.ofPlace p)
  | .load v l => (byWidth v.width 0x84 0x85).withModRm (.register v) (.address l.address)
  | .constant p z =>
    let value ← immediateValue p.width z
    let bytes ← if p.width = .byte then pure (signedBytes 1 value) else wideImmediate p.width value
    if p.isAccumulator then ((byWidth p.width 0xA8 0xA9).withImmediate bytes).implied
    else ((byWidth p.width 0xF6 0xF7).withImmediate bytes).withModRm (.digit 0) (.ofPlace p)

def encodeMove (destination source : Operand) : Except EncodeCause Code := do
  match ← requirePair destination source with
  | .store p v => (byWidth p.width 0x88 0x89).withModRm (.register v) (.ofPlace p)
  | .load v l => (byWidth v.width 0x8A 0x8B).withModRm (.register v) (.address l.address)
  | .constant p z =>
    let value ← immediateValue p.width z
    match p with
    | .register v =>
      ((byWidth v.width 0xB0 0xB8).withImmediate (signedBytes v.width.bytes value)).withOpcodeRegister v
    | .memory l =>
      let bytes ← if l.width = .byte then pure (signedBytes 1 value) else wideImmediate l.width value
      ((byWidth l.width 0xC6 0xC7).withImmediate bytes).withModRm (.digit 0) (.address l.address)

/-- Moves that extend a byte or a word; the opcode of the word is the next one. -/
def encodeExtension (opcode : UInt8) (destination source : Operand) : Except EncodeCause Code := do
  let src ← requirePlace source
  let v ← requireRegister Width.wordOrMore destination
  if (src.width = .byte ∨ src.width = .word) ∧ src.width.bits < v.bits then
    (form [0x0F, if src.width = .byte then opcode else opcode + 1] v.width).withModRm (.register v) (.ofPlace src)
  else .error (.extension src.width.bits v.bits)

def encodeSignExtension (destination source : Operand) : Except EncodeCause Code := do
  let src ← requirePlace source
  let v ← requireRegister [.qword] destination
  if src.width = .dword then (form [0x63] .qword).withModRm (.register v) (.ofPlace src)
  else .error .signExtensionSource

def encodeLoadAddress (destination source : Operand) : Except EncodeCause Code := do
  let v ← requireRegister Width.wordOrMore destination
  match source with
  | .memory l => (form [0x8D] v.width).withModRm (.register v) (.address l.address)
  | _ => .error .addressSource

/-- The register that the short form of an exchange with the accumulator holds.  eax with itself has none, because that
byte is a nop. -/
def exchangePartner? (first second : View) : Option View :=
  if first.width = .byte then none
  else
    let partner :=
      if (Place.register first).isAccumulator then some second
      else if (Place.register second).isAccumulator then some first
      else none
    partner.filter fun v => !(first.width == .dword && (Place.register v).isAccumulator)

def encodeExchange (first second : Operand) : Except EncodeCause Code := do
  let _ ← requirePlace second
  match ← requirePair first second with
  | .store (.register u) v =>
    match exchangePartner? u v with
    | some partner => (form [0x90] u.width).withOpcodeRegister partner
    | none => (byWidth u.width 0x86 0x87).withModRm (.register v) (.register u)
  | .store (.memory l) v => (byWidth l.width 0x86 0x87).withModRm (.register v) (.address l.address)
  | .load v l => (byWidth v.width 0x86 0x87).withModRm (.register v) (.address l.address)
  | .constant _ _ => .error .immediateInPlace

def encodePush (source : Operand) : Except EncodeCause Code :=
  if source.bits ≠ 64 then .error .pushWidth
  else match source with
    | .register v => (Form.mk [0x50] .qword true []).withOpcodeRegister v
    | .memory l => (Form.mk [0xFF] .qword true []).withModRm (.digit 6) (.address l.address)
    | .immediate z _ => do
      let value ← immediateValue .qword z
      if fitsSigned 8 value then (Form.mk [0x6A] .qword true (signedBytes 1 value)).implied
      else (Form.mk [0x68] .qword true (← wideImmediate .qword value)).implied
    | .vector _ => .error .misplacedVector

def encodePop (destination : Operand) : Except EncodeCause Code := do
  let place ← requirePlace destination
  if place.width ≠ .qword then .error .popWidth
  else match place with
    | .register v => (Form.mk [0x58] .qword true []).withOpcodeRegister v
    | .memory l => (Form.mk [0x8F] .qword true []).withModRm (.digit 0) (.address l.address)

/-- A register destination and a source of its width. -/
def encodeRegisterSource (opcode : List UInt8) (destination source : Operand) : Except EncodeCause Code := do
  let v ← requireRegister Width.wordOrMore destination
  let src ← requirePlace source
  requireSameWidth destination source
  (form opcode v.width).withModRm (.register v) (.ofPlace src)

/-- One operand, with a digit. -/
def encodeUnary (byteOpcode opcode : UInt8) (digit : Fin 8) (operand : Operand) : Except EncodeCause Code := do
  let place ← requirePlace operand
  (byWidth place.width byteOpcode opcode).withModRm (.digit digit) (.ofPlace place)

def encodeMultiply (destination source factor : Operand) : Except EncodeCause Code := do
  let v ← requireRegister Width.wordOrMore destination
  let src ← requirePlace source
  requireSameWidth destination source
  match factor with
  | .immediate z bits =>
    if bits ≠ v.bits then .error .factor
    let value ← immediateValue v.width z
    if fitsSigned 8 value then
      ((form [0x6B] v.width).withImmediate (signedBytes 1 value)).withModRm (.register v) (.ofPlace src)
    else
      ((form [0x69] v.width).withImmediate (← wideImmediate v.width value)).withModRm (.register v) (.ofPlace src)
  | _ => .error .factor

/-- Shifts and rotations by cl, by one, or by an immediate. -/
def encodeShift (digit : Fin 8) (destination count : Operand) : Except EncodeCause Code := do
  let place ← requirePlace destination
  match count with
  | .register v =>
    if v ≠ .low .rcx .byte then .error .countRegister
    else (byWidth place.width 0xD2 0xD3).withModRm (.digit digit) (.ofPlace place)
  | .immediate z _ =>
    let value ← immediateValue .byte z
    if value = 1 then (byWidth place.width 0xD0 0xD1).withModRm (.digit digit) (.ofPlace place)
    else
      ((byWidth place.width 0xC0 0xC1).withImmediate (signedBytes 1 value)).withModRm (.digit digit) (.ofPlace place)
  | _ => .error .countOperand

/-- The packed addition: both fields hold vector registers. -/
def encodePackedAdd (destination source : Operand) : Except EncodeCause Code :=
  match destination, source with
  | .vector d, .vector s =>
    let rex : Rex := ⟨false, 8 ≤ d.number.val, false, 8 ≤ s.number.val⟩
    .ok ⟨true, if rex.r || rex.b then some rex else none, [0x0F, 0xFE],
      some ⟨3, Fin.ofNat 8 d.number.val, Fin.ofNat 8 s.number.val, none, []⟩, []⟩
  | _, _ => .error .packedOperands

/-- Chooses the form.  Fixed forms have no field for an operand, so they do not look at any. -/
def encodeOperands : Mnemonic → List Operand → Except EncodeCause Code
  | .add, [d, s] => encodeArithmetic 0 d s
  | .or, [d, s] => encodeArithmetic 1 d s
  | .adc, [d, s] => encodeArithmetic 2 d s
  | .sbb, [d, s] => encodeArithmetic 3 d s
  | .and, [d, s] => encodeArithmetic 4 d s
  | .sub, [d, s] => encodeArithmetic 5 d s
  | .xor, [d, s] => encodeArithmetic 6 d s
  | .cmp, [d, s] => encodeArithmetic 7 d s
  | .test, [d, s] => encodeTest d s
  | .mov, [d, s] => encodeMove d s
  | .movzx, [d, s] => encodeExtension 0xB6 d s
  | .movsx, [d, s] => encodeExtension 0xBE d s
  | .movsxd, [d, s] => encodeSignExtension d s
  | .lea, [d, s] => encodeLoadAddress d s
  | .xchg, [d, s] => encodeExchange d s
  | .push, [s] => encodePush s
  | .pop, [d] => encodePop d
  | .cmove, [d, s] => encodeRegisterSource [0x0F, 0x44] d s
  | .cmovne, [d, s] => encodeRegisterSource [0x0F, 0x45] d s
  | .bsf, [d, s] => encodeRegisterSource [0x0F, 0xBC] d s
  | .bsr, [d, s] => encodeRegisterSource [0x0F, 0xBD] d s
  | .inc, [d] => encodeUnary 0xFE 0xFF 0 d
  | .dec, [d] => encodeUnary 0xFE 0xFF 1 d
  | .not, [d] => encodeUnary 0xF6 0xF7 2 d
  | .neg, [d] => encodeUnary 0xF6 0xF7 3 d
  | .mul, [d] => encodeUnary 0xF6 0xF7 4 d
  | .imul, [d] => encodeUnary 0xF6 0xF7 5 d
  | .div, [d] => encodeUnary 0xF6 0xF7 6 d
  | .idiv, [d] => encodeUnary 0xF6 0xF7 7 d
  | .imul, [d, s] => encodeRegisterSource [0x0F, 0xAF] d s
  | .imul, d :: s :: f :: _ => encodeMultiply d s f
  | .rol, [d, c] => encodeShift 0 d c
  | .ror, [d, c] => encodeShift 1 d c
  | .shl, [d, c] => encodeShift 4 d c
  | .shr, [d, c] => encodeShift 5 d c
  | .sar, [d, c] => encodeShift 7 d c
  | .paddd, [d, s] => encodePackedAdd d s
  | .cqo, _ => (form [0x99] .qword).implied
  | .cdq, _ => (form [0x99] .dword).implied
  | .nop, _ => (form [0x90] .dword).implied
  | _, _ => .error .operandCount

end MachineCode

namespace Instruction

/-- The parts of the machine code. -/
def code (i : Instruction) : Except EncodeError Code :=
  let result :=
    if i.usesVector && !i.mnemonic.isPacked then .error .misplacedVector
    else MachineCode.encodeOperands i.mnemonic i.operands
  result.mapError fun cause => ⟨i, cause⟩

def encode (i : Instruction) : Except EncodeError (List UInt8) := i.code.map Code.bytes

end Instruction

end LongMode

import LongMode.Proofs.Untyped.Transaction

/-!
# Executing untyped instructions

The engine on names and numbers: the checks of operands, one handler for each mnemonic or group, and execution itself.
A handler unpacks the operands that its mnemonic should have, looks up accumulators and bitwise operations in tables,
and leaves it to the checks that the operands are what it takes them for.
-/

namespace LongMode.Untyped

/-! ### Operand checks -/

/-- Says what is wrong with the operands of an instruction. -/
def Instruction.deny {α : Type} (i : Instruction) (r : Refusal) : Executing α := i.refuse r.kind r.message

def requirePlace (i : Instruction) (o : Operand) : Executing Unit :=
  if o.isImmediate then i.deny .immediateInPlace else .ok ()

def requireRegister (i : Instruction) (widths : List Width) (o : Operand) : Executing Unit :=
  if o.isRegister then
    if (widths.map Width.bits).contains o.width then .ok () else i.deny (.registerWidth o.width)
  else i.deny .destinationRegister

def requireSameWidth (i : Instruction) (first second : Operand) : Executing Unit :=
  if first.width = second.width then .ok () else i.deny (.widthsDiffer first.width second.width)

def requirePair (i : Instruction) : Executing Unit := do
  let (d, s) ← double i.operands
  requirePlace i d
  if d.isMemory && s.isMemory then i.refuse .invalidOperands "two memory operands"
  requireSameWidth i d s

/-- Operands that a register takes from a register or from memory. -/
def requireRegisterPair (i : Instruction) (d s : Operand) : Executing Unit := do
  requireRegister i Width.wordOrMore d
  requirePlace i s
  requireSameWidth i d s

def requireImmediate (i : Instruction) (o : Operand) : Executing Unit :=
  if o.isImmediate then .ok () else i.deny .factor

def requireCount (i : Instruction) : Operand → Executing Unit
  | .register name _ => if name = "cl" then .ok () else i.deny .countRegister
  | .immediate .. => .ok ()
  | .memory .. => i.deny .countOperand

/-! ### Tables -/

/-- The registers of the low and of the high half for each width. -/
def accumulators : List (Nat × String × String) :=
  [(8, "al", "ah"), (16, "ax", "dx"), (32, "eax", "edx"), (64, "rax", "rdx")]

def bitwiseOperations : List (Mnemonic × (Nat → Nat → Nat)) :=
  [(.and, Transaction.Bitwise.apply .and), (.test, Transaction.Bitwise.apply .and),
    (.or, Transaction.Bitwise.apply .or), (.xor, Transaction.Bitwise.apply .xor)]

def shiftNamed (name : String) : Executing Shift :=
  match Shift.ofName? name with
  | some k => .ok k
  | none => stuck .missingName

def rotationNamed (name : String) : Executing Rotation :=
  match Rotation.ofName? name with
  | some k => .ok k
  | none => stuck .missingName

/-! ### One mnemonic or group at a time -/

section

variable (t : Transaction) (i : Instruction)

/-- Stores a result and its flags. -/
def finish (d : Operand) (r : Flagged) : Executing Transaction := do return (← write t d r.value).setFlags r.flags

def performMove : Executing Transaction := do
  requirePair i
  let (d, s) ← double i.operands
  write t d (← read t s)

def performZeroExtension : Executing Transaction := do
  let (d, s) ← double i.operands
  requireRegister i Width.wordOrMore d
  requirePlace i s
  if (s.width = 8 ∨ s.width = 16) ∧ s.width < d.width then write t d (← read t s)
  else i.deny (.zeroExtension s.width d.width)

/-- The destination of a sign extension. -/
def requireSignExtension (d s : Operand) : Executing Unit := do
  if i.mnemonic = .movsxd then
    requireRegister i [.qword] d
    if s.width = 32 then return () else i.deny .signExtensionSource
  else
    requireRegister i Width.wordOrMore d
    if (s.width = 8 ∨ s.width = 16) ∧ s.width < d.width then return () else i.deny (.signExtension s.width d.width)

def performSignExtension : Executing Transaction := do
  let (d, s) ← double i.operands
  requirePlace i s
  requireSignExtension i d s
  write t d (← signed s.width (← read t s))

def performLoadAddress : Executing Transaction := do
  let (d, s) ← double i.operands
  requireRegister i Width.wordOrMore d
  match s with
  | .memory base index scale displacement _ => write t d (← effectiveAddress t base index scale displacement)
  | _ => i.deny .addressSource

def performExchange : Executing Transaction := do
  let (first, second) ← double i.operands
  requirePlace i second
  requirePair i
  let a ← read t first
  let b ← read t second
  write (← write t first b) second a

def performPush : Executing Transaction := do
  let s ← single i.operands
  if s.width ≠ 64 then i.deny .pushWidth
  else
    let value ← read t s
    let top := truncate 64 ((← readRegister t "rsp") - 8)
    writeRegister (← writeMemory t top 8 value) "rsp" top

def performPop : Executing Transaction := do
  let d ← single i.operands
  requirePlace i d
  if d.width ≠ 64 then i.deny .popWidth
  else
    let top ← readRegister t "rsp"
    let value ← readMemory t top 8
    write (← writeRegister t "rsp" (top + 8)) d value

def performConditionalMove : Executing Transaction := do
  let (d, s) ← double i.operands
  requireRegisterPair i d s
  let value ← read t s
  let zero ← readFlag t "ZF"
  if zero = (i.mnemonic == .cmove) then write t d value
  else if d.width = 32 then write t d (← read t d)
  else return t

def performSpreadSign : Executing Transaction := do
  let (low, high, w) := if i.mnemonic = .cqo then ("rax", "rdx", 64) else ("eax", "edx", 32)
  let negative ← atSignBit w (topBit w (← readRegister t low))
  writeRegister t high (if negative then 2 ^ w - 1 else 0)

/-- The carry flag, for the mnemonic that counts it. -/
def carryFor (m : Mnemonic) : Executing Bool := if i.mnemonic = m then readFlag t "CF" else .ok false

def performAdd : Executing Transaction := do
  requirePair i
  let (d, s) ← double i.operands
  let carry ← carryFor t i .adc
  let a ← read t d
  let b ← read t s
  finish t d (← atSignBit d.width (Word.add d.width a b carry.toNat))

def performSubtract : Executing Transaction := do
  requirePair i
  let (d, s) ← double i.operands
  let borrow ← carryFor t i .sbb
  let a ← read t d
  let b ← read t s
  let r ← atSignBit d.width (Word.sub d.width a b borrow.toNat)
  if i.mnemonic = .cmp then return t.setFlags r.flags else finish t d r

/-- Replaces a value by a function of it. -/
def performUpdate (f : Nat → Nat → Flagged) : Executing Transaction := do
  let d ← single i.operands
  requirePlace i d
  let a ← read t d
  finish t d (← atSignBit d.width (f d.width a))

/-- The low and the high half of a result. -/
def writeHalves (w high low : Nat) : Executing Transaction := do
  let (lowName, highName) ← find accumulators w
  if w = 8 then writeRegister t "ax" (high * 2 ^ 8 + low : Nat)
  else writeRegister (← writeRegister t lowName low) highName high

/-- The number that a division divides. -/
def readHalves (w : Nat) : Executing Nat := do
  let (lowName, highName) ← find accumulators w
  if w = 8 then readRegister t "ax"
  else return (← readRegister t highName) * 2 ^ w + (← readRegister t lowName)

def multiplyHalves (s : Operand) (f : Nat → Nat → Nat → Product) : Executing Transaction := do
  let (lowName, _) ← find accumulators s.width
  let a ← readRegister t lowName
  let b ← read t s
  let r ← atSignBit s.width (f s.width a b)
  return (← writeHalves t s.width r.high r.low).setFlags r.flags

def performMultiply : Executing Transaction := do
  let s ← single i.operands
  requirePlace i s
  multiplyHalves t s Word.multiply

/-- What a signed product with a destination multiplies. -/
def factors (d : Operand) : Executing (Nat × Nat) := do
  let s ← element i.operands 1
  if i.operands.length = 2 then
    requirePlace i s
    requireSameWidth i d s
    return (← read t d, ← read t s)
  else
    let f ← element i.operands 2
    requirePlace i s
    requireImmediate i f
    requireSameWidth i d s
    requireSameWidth i d f
    return (← read t s, ← read t f)

def performSignedMultiply : Executing Transaction := do
  let d ← element i.operands 0
  if i.operands.length = 1 then
    requirePlace i d
    multiplyHalves t d Word.multiplySigned
  else
    requireRegister i Width.wordOrMore d
    let (a, b) ← factors t i d
    let r ← atSignBit d.width (Word.multiplySigned d.width a b)
    finish t d ⟨r.low, r.flags⟩

/-- The quotient and the remainder of the two halves. -/
def division (w dividend divisor : Nat) : Executing Division :=
  if i.mnemonic = .div then divide w dividend divisor else divideSigned w dividend divisor

def performDivision : Executing Transaction := do
  let s ← single i.operands
  requirePlace i s
  let divisor ← read t s
  if divisor = 0 then i.refuse .divideByZero "division by zero"
  else
    let dividend ← readHalves t s.width
    let r ← division i s.width dividend divisor
    match r.quotient with
    | none => i.refuse .divideOverflow "quotient too large"
    | some quotient => writeHalves t s.width r.remainder quotient

def performBitwise : Executing Transaction := do
  requirePair i
  let (d, s) ← double i.operands
  let f ← find bitwiseOperations i.mnemonic
  let a ← read t d
  let b ← read t s
  let flags ← atSignBit d.width (Word.logicFlags d.width (f a b))
  if i.mnemonic = .test then return t.setFlags flags else finish t d ⟨f a b, flags⟩

def performComplement : Executing Transaction := do
  let d ← single i.operands
  requirePlace i d
  write t d (truncate d.width (-((← read t d) : Int) - 1) : Nat)

/-- The shift or the rotation that a mnemonic is the name of. -/
def moved (w value count : Nat) : Executing Flagged := do
  if i.mnemonic = .rol ∨ i.mnemonic = .ror then rotate (← rotationNamed i.mnemonic.name) w value count
  else shift (← shiftNamed i.mnemonic.name) w value count

def performShift : Executing Transaction := do
  let (d, c) ← double i.operands
  requirePlace i d
  requireCount i c
  let value ← read t d
  let count ← read t c
  let r ← moved i d.width value count
  if maskedCount d.width count ≠ 0 then finish t d r
  else if d.isRegister && d.width == 32 then write t d (← read t d)
  else return t

def performScan : Executing Transaction := do
  let (d, s) ← double i.operands
  requireRegisterPair i d s
  match Transaction.Scan.apply (if i.mnemonic = .bsf then .forward else .reverse) (← read t s) with
  | none => return t.setFlags { FlagEffect.none with zero := some true }
  | some n => finish t d ⟨n, { FlagEffect.none with zero := some false }⟩

def performPackedAdd : Executing Transaction := do
  let (d, s) ← double i.operands
  if !(d.isVector && s.isVector) then i.deny .packedOperands
  else
    let a ← read t d
    let b ← read t s
    write t d (Transaction.addLanes a b)

end

/-! ### Execution -/

/-- The handler of a mnemonic. -/
def handler : Mnemonic → Transaction → Instruction → Executing Transaction
  | .mov => performMove
  | .movzx => performZeroExtension
  | .movsx | .movsxd => performSignExtension
  | .lea => performLoadAddress
  | .xchg => performExchange
  | .push => performPush
  | .pop => performPop
  | .cmove | .cmovne => performConditionalMove
  | .cqo | .cdq => performSpreadSign
  | .nop => fun t _ => .ok t
  | .add | .adc => performAdd
  | .sub | .sbb | .cmp => performSubtract
  | .inc => fun t i => performUpdate t i Word.increment
  | .dec => fun t i => performUpdate t i Word.decrement
  | .neg => fun t i => performUpdate t i Word.negate
  | .mul => performMultiply
  | .imul => performSignedMultiply
  | .div | .idiv => performDivision
  | .and | .or | .xor | .test => performBitwise
  | .not => performComplement
  | .shl | .shr | .sar | .rol | .ror => performShift
  | .bsf | .bsr => performScan
  | .paddd => performPackedAdd

def checkImmediate (i : Instruction) : Operand → Executing Unit
  | .immediate z w => do if ← fits w z then return () else i.deny (.immediate z w)
  | _ => .ok ()

/-- The checks that every instruction has to pass. -/
def validate (i : Instruction) : Executing Unit := do
  let counts ← operandCounts i.mnemonic
  if !counts.contains i.operands.length then i.deny (.operandCount i.operands.length)
  if i.operands.any Operand.isVector && !i.mnemonic.isPacked then i.deny .misplacedVector
  if 1 < i.operands.countP Operand.isMemory then i.deny .severalMemoryOperands
  i.operands.forM (checkImmediate i)

def execute (m : Machine) (i : Instruction) : Executing Machine := do
  validate i
  commit (← handler i.mnemonic (Transaction.start m) i)

end LongMode.Untyped

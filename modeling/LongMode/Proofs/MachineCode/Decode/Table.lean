import LongMode.Proofs.MachineCode.Checks
import LongMode.Proofs.MachineCode.Decode.Fields

/-!
# The opcode table

Machine code read in the other direction: an opcode, the prefixes in front of it and the digit of a ModRM byte determine
the mnemonic and where its operands stand.

* `Pattern` is a mnemonic with a `Slot` for each operand, `pattern?` the table.
* `Code.operand?` reads the operand of a slot, `Code.instruction?` the whole instruction.
* `Code.read?` splits bytes into the parts of the first instruction and the bytes behind it.
-/

namespace LongMode

namespace MachineCode

/-- Where an operand stands. -/
inductive Slot
  | place (width : Width)
  | register (width : Width)
  | opcodeRegister (width : Width)
  | accumulator (width : Width)
  | count
  | one
  | immediate (size : Nat) (width : Width)
  | vectorPlace
  | vectorRegister
  deriving DecidableEq, Repr

structure Pattern where
  mnemonic : Mnemonic
  slots : List Slot
  deriving DecidableEq, Repr

/-- The number of bytes of an immediate field. -/
def Slot.immediateSize : Slot → Nat
  | immediate size _ => size
  | _ => 0

def Pattern.immediateSize (p : Pattern) : Nat := (p.slots.map Slot.immediateSize).sum

/-- The size of an immediate that is sign-extended to 64 bits. -/
def fullSize : Width → Nat
  | .byte => 1
  | .word => 2
  | _ => 4

/-- The operations of the opcodes below 40, and of the digits of 80, 81 and 83. -/
def arithmetic : Fin 8 → Mnemonic
  | 0 => .add
  | 1 => .or
  | 2 => .adc
  | 3 => .sbb
  | 4 => .and
  | 5 => .sub
  | 6 => .xor
  | 7 => .cmp

def arithmeticColumn? (m : Mnemonic) (w : Width) : Nat → Option Pattern
  | 0 => some ⟨m, [.place .byte, .register .byte]⟩
  | 1 => some ⟨m, [.place w, .register w]⟩
  | 2 => some ⟨m, [.register .byte, .place .byte]⟩
  | 3 => some ⟨m, [.register w, .place w]⟩
  | 4 => some ⟨m, [.accumulator .byte, .immediate 1 .byte]⟩
  | 5 => some ⟨m, [.accumulator w, .immediate (fullSize w) w]⟩
  | _ => none

/-- The digits of the opcodes of shifts. -/
def shift? : Fin 8 → Option Mnemonic
  | 0 => some .rol
  | 1 => some .ror
  | 4 => some .shl
  | 5 => some .shr
  | 7 => some .sar
  | _ => none

/-- The digits of F6 and F7. -/
def unary? (w : Width) : Fin 8 → Option Pattern
  | 0 => some ⟨.test, [.place w, .immediate (fullSize w) w]⟩
  | 2 => some ⟨.not, [.place w]⟩
  | 3 => some ⟨.neg, [.place w]⟩
  | 4 => some ⟨.mul, [.place w]⟩
  | 5 => some ⟨.imul, [.place w]⟩
  | 6 => some ⟨.div, [.place w]⟩
  | 7 => some ⟨.idiv, [.place w]⟩
  | _ => none

/-- Opcodes of one byte.  Without a prefix, 90 is the nop. -/
def oneByte? (plain : Bool) (w : Width) (opcode : Nat) (digit : Fin 8) : Option Pattern :=
  if opcode < 0x40 then arithmeticColumn? (arithmetic (Fin.ofNat 8 (opcode / 8))) w (opcode % 8)
  else if opcode / 8 = 0x50 / 8 then some ⟨.push, [.opcodeRegister .qword]⟩
  else if opcode / 8 = 0x58 / 8 then some ⟨.pop, [.opcodeRegister .qword]⟩
  else if opcode = 0x90 ∧ plain = true then some ⟨.nop, []⟩
  else if opcode / 8 = 0x90 / 8 then some ⟨.xchg, [.accumulator w, .opcodeRegister w]⟩
  else if opcode / 8 = 0xB0 / 8 then some ⟨.mov, [.opcodeRegister .byte, .immediate 1 .byte]⟩
  else if opcode / 8 = 0xB8 / 8 then some ⟨.mov, [.opcodeRegister w, .immediate w.bytes w]⟩
  else match opcode with
    | 0x63 => some ⟨.movsxd, [.register .qword, .place .dword]⟩
    | 0x68 => some ⟨.push, [.immediate 4 .qword]⟩
    | 0x69 => some ⟨.imul, [.register w, .place w, .immediate (fullSize w) w]⟩
    | 0x6A => some ⟨.push, [.immediate 1 .qword]⟩
    | 0x6B => some ⟨.imul, [.register w, .place w, .immediate 1 w]⟩
    | 0x80 => some ⟨arithmetic digit, [.place .byte, .immediate 1 .byte]⟩
    | 0x81 => some ⟨arithmetic digit, [.place w, .immediate (fullSize w) w]⟩
    | 0x83 => some ⟨arithmetic digit, [.place w, .immediate 1 w]⟩
    | 0x84 => some ⟨.test, [.place .byte, .register .byte]⟩
    | 0x85 => some ⟨.test, [.place w, .register w]⟩
    | 0x86 => some ⟨.xchg, [.place .byte, .register .byte]⟩
    | 0x87 => some ⟨.xchg, [.place w, .register w]⟩
    | 0x88 => some ⟨.mov, [.place .byte, .register .byte]⟩
    | 0x89 => some ⟨.mov, [.place w, .register w]⟩
    | 0x8A => some ⟨.mov, [.register .byte, .place .byte]⟩
    | 0x8B => some ⟨.mov, [.register w, .place w]⟩
    | 0x8D => some ⟨.lea, [.register w, .place .qword]⟩
    | 0x8F => some ⟨.pop, [.place .qword]⟩
    | 0x99 => some ⟨if w = .qword then .cqo else .cdq, []⟩
    | 0xA8 => some ⟨.test, [.accumulator .byte, .immediate 1 .byte]⟩
    | 0xA9 => some ⟨.test, [.accumulator w, .immediate (fullSize w) w]⟩
    | 0xC0 => (shift? digit).map fun m => ⟨m, [.place .byte, .immediate 1 .byte]⟩
    | 0xC1 => (shift? digit).map fun m => ⟨m, [.place w, .immediate 1 .byte]⟩
    | 0xC6 => some ⟨.mov, [.place .byte, .immediate 1 .byte]⟩
    | 0xC7 => some ⟨.mov, [.place w, .immediate (fullSize w) w]⟩
    | 0xD0 => (shift? digit).map fun m => ⟨m, [.place .byte, .one]⟩
    | 0xD1 => (shift? digit).map fun m => ⟨m, [.place w, .one]⟩
    | 0xD2 => (shift? digit).map fun m => ⟨m, [.place .byte, .count]⟩
    | 0xD3 => (shift? digit).map fun m => ⟨m, [.place w, .count]⟩
    | 0xF6 => unary? .byte digit
    | 0xF7 => unary? w digit
    | 0xFE =>
      match digit with
      | 0 => some ⟨.inc, [.place .byte]⟩
      | 1 => some ⟨.dec, [.place .byte]⟩
      | _ => none
    | 0xFF =>
      match digit with
      | 0 => some ⟨.inc, [.place w]⟩
      | 1 => some ⟨.dec, [.place w]⟩
      | 6 => some ⟨.push, [.place .qword]⟩
      | _ => none
    | _ => none

/-- Opcodes of two bytes, the first of which is 0F. -/
def twoByte? (w : Width) : Nat → Option Pattern
  | 0x44 => some ⟨.cmove, [.register w, .place w]⟩
  | 0x45 => some ⟨.cmovne, [.register w, .place w]⟩
  | 0xAF => some ⟨.imul, [.register w, .place w]⟩
  | 0xB6 => some ⟨.movzx, [.register w, .place .byte]⟩
  | 0xB7 => some ⟨.movzx, [.register w, .place .word]⟩
  | 0xBC => some ⟨.bsf, [.register w, .place w]⟩
  | 0xBD => some ⟨.bsr, [.register w, .place w]⟩
  | 0xBE => some ⟨.movsx, [.register w, .place .byte]⟩
  | 0xBF => some ⟨.movsx, [.register w, .place .word]⟩
  | 0xFE => some ⟨.paddd, [.vectorRegister, .vectorPlace]⟩
  | _ => none

def pattern? (plain : Bool) (w : Width) (digit : Fin 8) : List UInt8 → Option Pattern
  | [b] => oneByte? plain w b.toNat digit
  | [_, b] => twoByte? w b.toNat
  | _ => none

/-- The opcodes that a ModRM byte follows. -/
def hasModRm : List UInt8 → Bool
  | [b] =>
    if b < 0x40 then b % 8 < 4
    else b == 0x63 || b == 0x69 || b == 0x6B || 0x80 ≤ b && b < 0x90 || b == 0xC0 || b == 0xC1 || b == 0xC6 ||
      b == 0xC7 || 0xD0 ≤ b && b < 0xD4 || b == 0xF6 || b == 0xF7 || b == 0xFE || b == 0xFF
  | _ => true

/-- The width of the operands where the opcode does not say it. -/
def operandWidth (operandSize : Bool) (rex : Option Rex) : Width :=
  if (rex.getD .absent).w then .qword else if operandSize then .word else .dword

def tablePattern? (operandSize : Bool) (rex : Option Rex) (opcode : List UInt8) (modRm : Option ModRm) :
    Option Pattern :=
  pattern? (!operandSize && rex.isNone) (operandWidth operandSize rex) ((modRm.map ModRm.reg).getD 0) opcode

end MachineCode

namespace Code

open MachineCode

def pattern? (c : Code) : Option Pattern := tablePattern? c.operandSize c.rex c.opcode c.modRm

/-- The operand of a slot. -/
def operand? (c : Code) : Slot → Option Operand
  | .place w => c.modRm.bind fun m => (m.place? c.rex w).map Place.operand
  | .register w => c.modRm.map fun m => .register (.ofNumber c.rex.isSome w (extend c.rexBits.r m.reg))
  | .opcodeRegister w =>
    c.opcode.getLast?.map fun b => .register (.ofNumber c.rex.isSome w (extend c.rexBits.b (Fin.ofNat 8 b.toNat)))
  | .accumulator w => some (.register (.low .rax w))
  | .count => some (.register (.low .rcx .byte))
  | .one => some (.immediate 1 8)
  | .immediate _ w => some (.immediate (signedOf c.immediate) w.bits)
  | .vectorPlace => c.modRm.map fun m => .vector ⟨extend c.rexBits.b m.rm⟩
  | .vectorRegister => c.modRm.map fun m => .vector ⟨extend c.rexBits.r m.reg⟩

/-- The instruction that machine code stands for. -/
def instruction? (c : Code) : Option Instruction := do
  let p ← c.pattern?
  let operands ← p.slots.mapM c.operand?
  return ⟨p.mnemonic, operands⟩

end Code

/-! ### Splitting bytes -/

/-- The first `n` bytes and the others. -/
def takeBytes? (n : Nat) (bytes : List UInt8) : Option (List UInt8 × List UInt8) :=
  if n ≤ bytes.length then some (bytes.take n, bytes.drop n) else none

theorem takeBytes?_append {n : Nat} {xs rest : List UInt8} (h : xs.length = n) :
    takeBytes? n (xs ++ rest) = some (xs, rest) := by
  subst h
  simp [takeBytes?]

def Rex.ofByte (b : UInt8) : Rex :=
  ⟨b.toNat / 8 % 2 == 1, b.toNat / 4 % 2 == 1, b.toNat / 2 % 2 == 1, b.toNat % 2 == 1⟩

theorem Rex.ofByte_byte (rex : Rex) : Rex.ofByte rex.byte = rex := by
  rcases rex with ⟨w, r, x, b⟩
  cases w <;> cases r <;> cases x <;> cases b <;> rfl

def Sib.ofByte (b : UInt8) : Sib := ⟨Fin.ofNat 4 (b.toNat / 64), Fin.ofNat 8 (b.toNat / 8), Fin.ofNat 8 b.toNat⟩

/-- Three fields of a byte do not run into each other. -/
private theorem fields_ofNat (a : Fin 4) (b c : Fin 8) :
    Fin.ofNat 4 ((UInt8.ofNat (64 * a.val + 8 * b.val + c.val)).toNat / 64) = a ∧
      Fin.ofNat 8 ((UInt8.ofNat (64 * a.val + 8 * b.val + c.val)).toNat / 8) = b ∧
      Fin.ofNat 8 (UInt8.ofNat (64 * a.val + 8 * b.val + c.val)).toNat = c := by
  simp only [UInt8.toNat_ofNat', Fin.ext_iff, Fin.ofNat]
  omega

theorem Sib.ofByte_byte (s : Sib) : Sib.ofByte s.byte = s := by
  obtain ⟨h1, h2, h3⟩ := fields_ofNat s.scale s.index s.base
  unfold ofByte byte
  rw [h1, h2, h3]

namespace ModRm

/-- The ModRM byte with what it announces. -/
def read? : List UInt8 → Option (ModRm × List UInt8)
  | [] => none
  | b :: bytes => do
    let mode := Fin.ofNat 4 (b.toNat / 64)
    let rm := Fin.ofNat 8 b.toNat
    let hasSib := mode ≠ 3 ∧ rm = 4
    let (sib, bytes) ← takeBytes? (if hasSib then 1 else 0) bytes
    let sib := sib.head?.map Sib.ofByte
    let (displacement, bytes) ← takeBytes? (displacementSize mode (baseField rm sib)) bytes
    return (⟨mode, Fin.ofNat 8 (b.toNat / 8), rm, sib, displacement⟩, bytes)

theorem read?_bytes {m : ModRm} (h : m.IsLaidOut) (rest : List UInt8) : read? (m.bytes ++ rest) = some (m, rest) := by
  obtain ⟨h1, h2, h3⟩ := fields_ofNat m.mode m.reg m.rm
  have hlen : (m.sib.map Sib.byte).toList.length = if m.mode ≠ 3 ∧ m.rm = 4 then 1 else 0 := by
    cases hs : m.sib with
    | none =>
      rw [if_neg fun hc => absurd (h.sib.2 hc) (by simp [hs])]
      rfl
    | some s =>
      rw [if_pos (h.sib.1 (by rw [hs]; rfl))]
      rfl
  have hback : (m.sib.map Sib.byte).toList.head?.map Sib.ofByte = m.sib := by
    cases m.sib with
    | none => rfl
    | some s => simp [Sib.ofByte_byte]
  simp only [read?, bytes, List.cons_append, List.append_assoc, h1, h2, h3, takeBytes?_append hlen, hback,
    takeBytes?_append h.displacement, bind, Option.bind]
  rfl

end ModRm

namespace Code

open MachineCode

def readOperandSize : List UInt8 → Bool × List UInt8
  | [] => (false, [])
  | b :: bytes => if b = 0x66 then (true, bytes) else (false, b :: bytes)

def readRex : List UInt8 → Option Rex × List UInt8
  | [] => (none, [])
  | b :: bytes => if b.toNat / 16 = 4 then (some (Rex.ofByte b), bytes) else (none, b :: bytes)

def readOpcode? : List UInt8 → Option (List UInt8 × List UInt8)
  | [] => none
  | b :: bytes => takeBytes? (if b = 0x0F then 2 else 1) (b :: bytes)

def readModRm? (opcode bytes : List UInt8) : Option (Option ModRm × List UInt8) :=
  if hasModRm opcode then (ModRm.read? bytes).map fun p => (some p.1, p.2) else some (none, bytes)

/-- The parts of the first instruction and the bytes behind it. -/
def read? (bytes : List UInt8) : Option (Code × List UInt8) := do
  let (operandSize, bytes) := readOperandSize bytes
  let (rex, bytes) := readRex bytes
  let (opcode, bytes) ← readOpcode? bytes
  let (modRm, bytes) ← readModRm? opcode bytes
  let p ← tablePattern? operandSize rex opcode modRm
  let (immediate, bytes) ← takeBytes? p.immediateSize bytes
  return (⟨operandSize, rex, opcode, modRm, immediate⟩, bytes)

/-- An opcode begins with no prefix, and it has two bytes exactly when the first is 0F. -/
def IsOpcode : List UInt8 → Prop
  | [] => False
  | b :: rest => b ≠ 0x66 ∧ b.toNat / 16 ≠ 4 ∧ rest.length = if b = 0x0F then 1 else 0

instance : DecidablePred IsOpcode
  | [] => inferInstanceAs (Decidable False)
  | b :: rest => inferInstanceAs (Decidable (b ≠ 0x66 ∧ b.toNat / 16 ≠ 4 ∧ rest.length = if b = 0x0F then 1 else 0))

/-- The parts of machine code announce each other in the order in which they are read. -/
structure IsFramed (c : Code) (p : Pattern) : Prop where
  opcode : IsOpcode c.opcode
  modRm : hasModRm c.opcode = c.modRm.isSome
  laidOut : ∀ m, c.modRm = some m → m.IsLaidOut
  pattern : c.pattern? = some p
  immediate : c.immediate.length = p.immediateSize

private theorem toNat_rexByte (rex : Rex) : rex.byte.toNat / 16 = 4 := by
  rcases rex with ⟨w, r, x, b⟩
  cases w <;> cases r <;> cases x <;> cases b <;> rfl

private theorem readOperandSize_append {size : Bool} {b : UInt8} {bytes : List UInt8} (hb : b ≠ 0x66) :
    readOperandSize ((if size then [0x66] else []) ++ b :: bytes) = (size, b :: bytes) := by
  cases size
  · exact if_neg hb
  · rfl

private theorem readRex_append {rex : Option Rex} {b : UInt8} {bytes : List UInt8} (hb : b.toNat / 16 ≠ 4) :
    readRex ((rex.map Rex.byte).toList ++ b :: bytes) = (rex, b :: bytes) := by
  cases rex with
  | none => exact if_neg hb
  | some rex =>
    refine (if_pos (toNat_rexByte rex)).trans ?_
    rw [Rex.ofByte_byte]
    rfl

private theorem readModRm?_append {opcode : List UInt8} {m : Option ModRm} (bytes : List UInt8)
    (h : hasModRm opcode = m.isSome) (hm : ∀ m', m = some m' → m'.IsLaidOut) :
    readModRm? opcode ((m.map ModRm.bytes).getD [] ++ bytes) = some (m, bytes) := by
  unfold readModRm?
  rw [h]
  cases m with
  | none => rfl
  | some m => simp [ModRm.read?_bytes (hm m rfl)]

/-- Machine code is read back from its bytes, whatever follows them. -/
theorem read?_bytes {c : Code} {p : Pattern} (h : c.IsFramed p) (rest : List UInt8) :
    read? (c.bytes ++ rest) = some (c, rest) := by
  have hopcode := h.opcode
  obtain ⟨b, tail, hop⟩ : ∃ b tail, c.opcode = b :: tail := by
    cases hc : c.opcode with
    | nil =>
      rw [hc] at hopcode
      exact hopcode.elim
    | cons b tail => exact ⟨b, tail, rfl⟩
  rw [hop] at hopcode
  obtain ⟨h66, hrex, hlen⟩ := hopcode
  -- what stands behind the first prefix cannot be taken for it
  have hhead : ∀ bytes, ∃ b' tail', (c.rex.map Rex.byte).toList ++ b :: bytes = b' :: tail' ∧ b' ≠ 0x66 := by
    intro bytes
    cases c.rex with
    | none => exact ⟨b, bytes, rfl, h66⟩
    | some rex =>
      refine ⟨rex.byte, b :: bytes, rfl, fun he => ?_⟩
      have hbyte := toNat_rexByte rex
      rw [he] at hbyte
      exact absurd hbyte (by decide)
  have hopcode : ∀ bytes, readOpcode? (b :: (tail ++ bytes)) = some (c.opcode, bytes) := by
    intro bytes
    rw [hop, readOpcode?, ← List.cons_append]
    refine takeBytes?_append ?_
    rw [List.length_cons, hlen]
    split <;> rfl
  have hmodRm := readModRm?_append (c.immediate ++ rest) h.modRm h.laidOut
  have hpattern : tablePattern? c.operandSize c.rex c.opcode c.modRm = some p := h.pattern
  have hbytes : c.bytes ++ rest = (if c.operandSize then [0x66] else []) ++ ((c.rex.map Rex.byte).toList ++
      b :: (tail ++ ((c.modRm.map ModRm.bytes).getD [] ++ (c.immediate ++ rest)))) := by
    unfold bytes
    rw [hop]
    cases c.modRm <;> simp
  obtain ⟨b', tail', he, hb'⟩ := hhead _
  unfold read?
  rw [hbytes, he, readOperandSize_append hb', ← he]
  dsimp only
  rw [readRex_append hrex]
  dsimp only
  rw [hopcode]
  dsimp only [bind, Option.bind]
  rw [hmodRm]
  dsimp only [Option.bind]
  rw [hpattern]
  dsimp only [Option.bind]
  rw [takeBytes?_append h.immediate]
  rfl

end Code

end LongMode

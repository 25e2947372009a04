import LongMode.Execution.Semantics
import LongMode.Proofs.MachineCode.Decode.Operands

/-!
# Recovering operands

What a processor finds when it reads the bytes of an instruction.

* `exists_holds`: the bytes split into the parts that the encoder chose, whatever follows them.
* `fields_of_encode`: registers and addresses in the fields of the ModRM byte are those of the operands.
* `immediate_of_encode`: the immediate at the end is the number that the engine computes with, and it is one byte
  exactly where one byte is enough.
-/

namespace LongMode

/-- One byte holds the numbers from -128 to 127. -/
private theorem signedOf_single {bytes : List UInt8} (h : bytes.length = 1) :
    -128 ≤ signedOf bytes ∧ signedOf bytes ≤ 127 := by
  have hl := @le_signed (8 * 1) (by decide) (ofLittleEndian bytes)
  have hu := @signed_lt (8 * 1) (by decide) (ofLittleEndian bytes)
  unfold signedOf
  rw [h]
  omega

/-- Bytes that say an immediate are one byte exactly where that is enough, if there is a form for one byte. -/
private theorem SaysImmediate.single_iff {z : Int} {n : Nat} {bytes : List UInt8} (h : SaysImmediate true z n bytes) :
    bytes.length = 1 ↔ -128 ≤ signed n z ∧ signed n z ≤ 127 := by
  constructor
  · intro hlength
    rw [← h.value]
    exact signedOf_single hlength
  · rintro ⟨hl, hu⟩
    refine h.short rfl (fitsSigned_iff.2 ?_)
    omega

namespace Instruction

variable {text : List Char} {i : Instruction} {bytes : List UInt8} {z : Int} {n : Nat}

/-- The bytes of an instruction are read back, and they hold its operands. -/
theorem exists_holds (hread : Assembly.parse text = .ok i) (h : i.encode = .ok bytes) (rest : List UInt8) :
    ∃ c, Code.read? (bytes ++ rest) = some (c, rest) ∧ c.bytes = bytes ∧ c.Holds i ∧
      ∀ m, c.modRm = some m → m.IsLaidOut := by
  have hi : i.WellFormed := Assembly.parse_wellFormed hread
  obtain ⟨c, hc, hbytes⟩ := encode_eq_ok.1 h
  obtain ⟨p, hp⟩ := (spells_code hi hc).framed
  refine ⟨c, ?_, hbytes, holds_code hi hc, hp.laidOut⟩
  rw [← hbytes]
  exact Code.read?_bytes hp rest

/-- The fields of a ModRM byte, with REX, SIB and displacement, say the operands of the instruction.  The form that
counts from the instruction pointer does not occur. -/
theorem fields_of_encode (hread : Assembly.parse text = .ok i) (h : i.encode = .ok bytes) (rest : List UInt8) :
    ∃ c, Code.read? (bytes ++ rest) = some (c, rest) ∧ c.bytes = bytes ∧
      ∀ m, c.modRm = some m → m.IsLaidOut ∧ ¬ (m.mode = 0 ∧ m.rm = 5) ∧
        ∃ rm reg, i.fieldOperands = some (rm, reg) ∧ m.Says c.rex rm reg := by
  obtain ⟨c, hsplit, hbytes, hholds, hlaid⟩ := exists_holds hread h rest
  refine ⟨c, hsplit, hbytes, fun m hm => ?_⟩
  obtain ⟨rm, reg, hfields, hsaid⟩ := hholds.fields m hm
  exact ⟨hlaid m hm, hsaid.not_relative (hlaid m hm), rm, reg, hfields, hsaid⟩

/-- All three extension bits, an index that has the number of rsp in its field, and a base that needs a displacement. -/
theorem fields_of_encode_extended :
    Assembly.parse "add qword ptr [r13+r12*8], r9".toList =
      .ok ⟨.add, [.memory ⟨⟨some .r13, some .r12, .eight, 0⟩, .qword⟩, .register (.low .r9 .qword)]⟩ ∧
    (Instruction.mk .add [.memory ⟨⟨some .r13, some .r12, .eight, 0⟩, .qword⟩, .register (.low .r9 .qword)]).encode =
      .ok [0x4F, 0x01, 0x4C, 0xE5, 0x00] ∧
    ∃ c m, Code.read? [0x4F, 0x01, 0x4C, 0xE5, 0x00] = some (c, []) ∧ c.modRm = some m ∧ m.mode = 1 ∧
      m.address? c.rexBits = some ⟨some .r13, some .r12, .eight, 0⟩ := by
  have hread : Assembly.parse "add qword ptr [r13+r12*8], r9".toList =
      .ok ⟨.add, [.memory ⟨⟨some .r13, some .r12, .eight, 0⟩, .qword⟩, .register (.low .r9 .qword)]⟩ := by rfl
  have hcode : (Instruction.mk .add
      [.memory ⟨⟨some .r13, some .r12, .eight, 0⟩, .qword⟩, .register (.low .r9 .qword)]).encode =
      .ok [0x4F, 0x01, 0x4C, 0xE5, 0x00] := by rfl
  obtain ⟨c, hsplit, -, hfields⟩ := fields_of_encode hread hcode []
  obtain ⟨m, hm, hmode⟩ : ∃ m, c.modRm = some m ∧ m.mode = 1 := by
    cases hsplit
    exact ⟨_, rfl, rfl⟩
  obtain ⟨-, -, rm, reg, hoperands, hsaid⟩ := hfields m hm
  cases hoperands
  obtain ⟨l, hl, haddress⟩ := hsaid.memory (by rw [hmode]; decide)
  cases hl
  exact ⟨hread, hcode, c, m, hsplit, hm, hmode, haddress⟩

/-! ### Immediates -/

/-- The bytes of an instruction end with its immediate, which is the number that the engine reads, modulo the width.
The operations with a form for one byte use it exactly where the signed reading of the literal fits. -/
theorem immediate_of_encode (hread : Assembly.parse text = .ok i) (h : i.encode = .ok bytes)
    (hz : .immediate z n ∈ i.operands) (hone : ¬ (i.mnemonic.isShift = true ∧ z = 1)) (rest : List UInt8) :
    ∃ c front, Code.read? (bytes ++ rest) = some (c, rest) ∧ bytes = front ++ c.immediate ∧
      c.immediate.length ∈ [1, 2, 4, 8] ∧
      (∀ t : Transaction, t.read (.immediate z n) = .ok (truncate n (signedOf c.immediate))) ∧
      (i.mnemonic.hasShortImmediate = true →
        (c.immediate.length = 1 ↔ -128 ≤ signed n z ∧ signed n z ≤ 127)) := by
  obtain ⟨c, hsplit, hbytes, hholds, -⟩ := exists_holds hread h rest
  have hsaid := hholds.immediate z n hz hone
  refine ⟨c, _, hsplit, hbytes.symm, hsaid.size, fun t => ?_, fun hshort => ?_⟩
  · show Except.ok (truncate n z) = _
    rw [hsaid.value, truncate_signed]
  · rw [hshort] at hsaid
    exact hsaid.single_iff

/-- An unsigned literal of 16 bits that is -1 in two's complement takes one byte. -/
theorem immediate_of_encode_unsigned :
    Assembly.parse "add cx, 0xffff".toList = .ok ⟨.add, [.register (.low .rcx .word), .immediate 0xffff 16]⟩ ∧
    (Instruction.mk .add [.register (.low .rcx .word), .immediate 0xffff 16]).encode =
      .ok [0x66, 0x83, 0xC1, 0xFF] ∧
    ∃ (c : Code) (front : List UInt8), [0x66, 0x83, 0xC1, 0xFF] = front ++ c.immediate ∧ c.immediate.length = 1 ∧
      ∀ t : Transaction, t.read (.immediate 0xffff 16) = .ok (truncate 16 (signedOf c.immediate)) := by
  have hread : Assembly.parse "add cx, 0xffff".toList =
      .ok ⟨.add, [.register (.low .rcx .word), .immediate 0xffff 16]⟩ := by rfl
  have hcode : (Instruction.mk .add [.register (.low .rcx .word), .immediate 0xffff 16]).encode =
      .ok [0x66, 0x83, 0xC1, 0xFF] := by rfl
  obtain ⟨c, front, -, hbytes, -, hvalue, hshort⟩ :=
    immediate_of_encode (z := 0xffff) (n := 16) hread hcode (by simp) (by decide) []
  exact ⟨hread, hcode, c, front, hbytes, (hshort rfl).2 (by decide), hvalue⟩

end Instruction

end LongMode

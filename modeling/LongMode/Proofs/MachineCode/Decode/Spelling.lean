import LongMode.Proofs.MachineCode.Decode.Table

/-!
# What machine code spells

Machine code spells an instruction (`Code.Spells`) when it is laid out as the table says and the table reads the
instruction from it.  The forms share a few shapes, and each shape is settled here once:

* `Form.Fills.spells`: an opcode with a ModRM byte.
* `spells_of_implied`: an opcode that says everything.
* `spells_of_opcodeRegister`: an opcode with a register in its last three bits.
* `spells_store`, `spells_load`: a register and a place of its width.
* `spells_constant`: a place and an immediate, with the short form for the accumulator.

`Instruction.canonical` chooses one instruction among those with the same machine code, the one that the table reads.
-/

namespace LongMode

/-- An operand with its immediate as a signed number. -/
def Operand.reduced : Operand → Operand
  | immediate z n => immediate (signed n z) n
  | o => o

theorem Place.reduced_operand (p : Place) : p.operand.reduced = p.operand := by
  cases p <;> rfl

namespace Instruction

/-- One instruction for all that have the same machine code.  An immediate is a signed number, an address that is only
loaded has no width of its own, memory stands before a register where the form does not say which is first, and so does
the accumulator in an exchange of registers that are wider than a byte. -/
def canonical (i : Instruction) : Instruction :=
  ⟨i.mnemonic, match i.mnemonic, i.operands.map Operand.reduced with
    | .lea, [d, .memory l] => [d, .memory ⟨l.address, .qword⟩]
    | .test, [.register v, .memory l] => [.memory l, .register v]
    | .xchg, [.register v, .memory l] => [.memory l, .register v]
    | .xchg, [.register u, .register v] =>
      if v.width ≠ .byte ∧ v.cell = .rax then [.register v, .register u] else [.register u, .register v]
    | _, operands => operands⟩

end Instruction

/-- Machine code that can be read back, and what it stands for. -/
structure Code.Spells (c : Code) (i : Instruction) : Prop where
  framed : ∃ p, c.IsFramed p
  instruction : c.instruction? = some i

namespace MachineCode

/-! ### Immediates -/

theorem fitsSigned_signed (w : Width) (z : Int) : fitsSigned w.bits (signed w.bits z) = true :=
  fitsSigned_iff.2 ⟨le_signed (by cases w <;> decide) z, signed_lt (by cases w <;> decide) z⟩

theorem signedOf_byte (z : Int) : signedOf (signedBytes 1 (signed Width.byte.bits z)) = signed Width.byte.bits z :=
  signedOf_signedBytes (by decide) (fitsSigned_signed .byte z)

theorem wideImmediate_eq_ok {w : Width} {z : Int} {bytes : List UInt8} (hw : w ≠ .byte)
    (h : wideImmediate w (signed w.bits z) = .ok bytes) :
    fullSize w = bytes.length ∧ signedOf bytes = signed w.bits z := by
  unfold wideImmediate at h
  split at h
  · rename_i hword
    subst hword
    cases h
    exact ⟨rfl, signedOf_signedBytes (by decide) (fitsSigned_signed .word z)⟩
  · rename_i hword
    split at h
    · rename_i h32
      cases h
      refine ⟨?_, signedOf_signedBytes (by decide) h32⟩
      cases w <;> first | rfl | exact absurd rfl hw | exact absurd rfl hword
    · cases h

/-- The immediate of a form that has one for each width, in a field of at most 32 bits. -/
theorem exists_fullImmediate {w : Width} {z : Int} {k : List UInt8 → Except EncodeCause Code} {c : Code}
    (h : (if w = .byte then pure (signedBytes 1 (signed w.bits z)) >>= k
      else wideImmediate w (signed w.bits z) >>= k) = .ok c) :
    ∃ bytes, (fullSize w = bytes.length ∧ signedOf bytes = signed w.bits z) ∧ k bytes = .ok c := by
  split at h
  · rename_i hb
    subst hb
    exact ⟨_, ⟨rfl, signedOf_byte z⟩, h⟩
  · rename_i hb
    obtain ⟨bytes, hbytes, h⟩ := bind_eq_ok.1 h
    exact ⟨bytes, wideImmediate_eq_ok hb hbytes, h⟩

/-! ### Forms with a ModRM byte -/

namespace Form.Fills

variable {f : Form} {reg : RegOperand} {p : Place} {c : Code}

theorem operand_place (h : f.Fills reg p c) : c.operand? (.place p.width) = some p.operand := by
  obtain ⟨m, hm, -, -, hp⟩ := h.modRm
  simp [Code.operand?, hm, hp]

theorem operand_register {v : View} (h : f.Fills (.register v) p c) :
    c.operand? (.register v.width) = some (.register v) := by
  obtain ⟨m, hm, -, hreg, -⟩ := h.modRm
  simp only [Code.operand?, hm, hreg, RegOperand.field, Option.map_some, h.register v rfl]

theorem operand_immediate {value : Int} (h : f.Fills reg p c) (hv : signedOf f.immediate = value) (n : Nat)
    (w : Width) : c.operand? (.immediate n w) = some (.immediate value w.bits) := by
  rw [Code.operand?, h.immediate, hv]

/-- The width of the operands is found in the prefixes, unless the opcode says it. -/
theorem operandWidth_eq (h : f.Fills reg p c) (hb : f.width ≠ .byte) (hq : f.qwordByDefault = false) :
    operandWidth c.operandSize c.rex = f.width := by
  have hw : (c.rex.getD .absent).w = selectsQword f.width f.qwordByDefault := h.selects
  rw [operandWidth, hw, h.operandSize, hq]
  cases hf : f.width with
  | byte => exact absurd hf hb
  | _ => rfl

theorem spells {i : Instruction} (slots : List Slot) (h : f.Fills reg p c) (hopcode : Code.IsOpcode f.opcode)
    (hm : hasModRm f.opcode = true)
    (hp : ∀ plain w, (f.width ≠ .byte → f.qwordByDefault = false → w = f.width) →
      pattern? plain w reg.field f.opcode = some ⟨i.mnemonic, slots⟩)
    (hsize : f.immediate.length = (slots.map Slot.immediateSize).sum)
    (hslots : slots.mapM c.operand? = some i.operands) : c.Spells i := by
  obtain ⟨m, hmod, hlaid, hreg, -⟩ := h.modRm
  have hpattern : c.pattern? = some ⟨i.mnemonic, slots⟩ := by
    rw [Code.pattern?, tablePattern?, hmod, h.opcode]
    show pattern? _ _ m.reg f.opcode = _
    rw [hreg]
    exact hp _ _ h.operandWidth_eq
  refine ⟨⟨⟨i.mnemonic, slots⟩, ?_, ?_, fun m' hm' => ?_, hpattern, ?_⟩, ?_⟩
  · rw [h.opcode]
    exact hopcode
  · rw [h.opcode, hm, hmod]
    rfl
  · rw [hmod] at hm'
    cases hm'
    exact hlaid
  · rw [h.immediate]
    exact hsize
  · rw [Code.instruction?, hpattern]
    show (slots.mapM c.operand? >>= fun operands => some ⟨i.mnemonic, operands⟩) = some i
    rw [hslots]
    rfl

end Form.Fills

/-- A form whose opcode depends on whether the operands are bytes. -/
theorem pattern?_byWidth {a b : UInt8} {wd : Width} {digit : Fin 8} {k : Width → Pattern}
    (ha : ∀ plain w, pattern? plain w digit [a] = some (k .byte))
    (hb : ∀ plain w, pattern? plain w digit [b] = some (k w)) (plain : Bool) (w : Width) (hw : wd ≠ .byte → w = wd) :
    pattern? plain w digit [if wd = .byte then a else b] = some (k wd) := by
  by_cases h : wd = .byte
  · rw [if_pos h, ha, h]
  · rw [if_neg h, hb, hw h]

theorem Form.Fills.spells_byWidth {a b : UInt8} {wd : Width} {reg : RegOperand} {p : Place} {c : Code}
    {i : Instruction} {k : Width → Pattern} (bytes : List UInt8)
    (h : ((byWidth wd a b).withImmediate bytes).Fills reg p c) (hopcode : Code.IsOpcode [a] ∧ Code.IsOpcode [b])
    (hm : hasModRm [a] = true ∧ hasModRm [b] = true)
    (ha : ∀ plain w, pattern? plain w reg.field [a] = some (k .byte))
    (hb : ∀ plain w, pattern? plain w reg.field [b] = some (k w)) (hk : (k wd).mnemonic = i.mnemonic)
    (hsize : bytes.length = (k wd).immediateSize) (hslots : (k wd).slots.mapM c.operand? = some i.operands) :
    c.Spells i := by
  have hop : ((byWidth wd a b).withImmediate bytes).opcode = [if wd = .byte then a else b] := rfl
  refine h.spells (k wd).slots ?_ ?_ (fun plain w hw => ?_) hsize hslots
  · rw [hop]
    split
    · exact hopcode.1
    · exact hopcode.2
  · rw [hop]
    split
    · exact hm.1
    · exact hm.2
  · have hw : wd ≠ .byte → w = wd := fun h => hw h rfl
    rw [hop, pattern?_byWidth ha hb plain w hw, ← hk]

/-- A place and a register of its width. -/
theorem spells_store {a b : UInt8} {m : Mnemonic} {p : Place} {v : View} {c : Code}
    (hp : ∀ l, p = .memory l → l.address.WellFormed) (hw : p.width = v.width)
    (h : (byWidth p.width a b).withModRm (.register v) (.ofPlace p) = .ok c)
    (hopcode : Code.IsOpcode [a] ∧ Code.IsOpcode [b]) (hm : hasModRm [a] = true ∧ hasModRm [b] = true)
    (ha : ∀ plain w digit, pattern? plain w digit [a] = some ⟨m, [.place .byte, .register .byte]⟩)
    (hb : ∀ plain w digit, pattern? plain w digit [b] = some ⟨m, [.place w, .register w]⟩) :
    c.Spells ⟨m, [p.operand, .register v]⟩ := by
  have hf := Form.fills_of_withModRm hp h
  refine hf.spells_byWidth [] (k := fun w => ⟨m, [.place w, .register w]⟩) hopcode hm
    (fun plain w => ha plain w _) (fun plain w => hb plain w _) rfl rfl ?_
  have hr := hf.operand_register
  rw [← hw] at hr
  simp [hf.operand_place, hr]

/-- A register and a location of its width. -/
theorem spells_load {a b : UInt8} {m : Mnemonic} {v : View} {l : Location} {c : Code}
    (hl : l.address.WellFormed) (hw : v.width = l.width)
    (h : (byWidth v.width a b).withModRm (.register v) (.address l.address) = .ok c)
    (hopcode : Code.IsOpcode [a] ∧ Code.IsOpcode [b]) (hm : hasModRm [a] = true ∧ hasModRm [b] = true)
    (ha : ∀ plain w digit, pattern? plain w digit [a] = some ⟨m, [.register .byte, .place .byte]⟩)
    (hb : ∀ plain w digit, pattern? plain w digit [b] = some ⟨m, [.register w, .place w]⟩) :
    c.Spells ⟨m, [.register v, .memory l]⟩ := by
  have hf := Form.fills_of_withModRm (p := .memory l) (by rintro _ ⟨⟩; exact hl) h
  refine hf.spells_byWidth [] (k := fun w => ⟨m, [.register w, .place w]⟩) hopcode hm
    (fun plain w => ha plain w _) (fun plain w => hb plain w _) rfl rfl ?_
  have hp : c.operand? (.place v.width) = some (.memory l) := hw ▸ hf.operand_place
  simp [hf.operand_register, hp]

/-! ### Forms without a ModRM byte -/

theorem spells_of_implied {f : Form} {c : Code} {i : Instruction} (slots : List Slot) (h : f.implied = .ok c)
    (hopcode : Code.IsOpcode f.opcode) (hm : hasModRm f.opcode = false)
    (hp : ∀ plain w, (f.qwordByDefault = false → f.width = .dword → plain = true) →
      (f.width ≠ .byte → f.qwordByDefault = false → w = f.width) →
      pattern? plain w 0 f.opcode = some ⟨i.mnemonic, slots⟩)
    (hsize : f.immediate.length = (slots.map Slot.immediateSize).sum)
    (hslots : ∀ c : Code, c.immediate = f.immediate → slots.mapM c.operand? = some i.operands) : c.Spells i := by
  unfold Form.implied at h
  obtain ⟨r, hr, h⟩ := bind_eq_ok.1 h
  cases h
  obtain ⟨hbits, -⟩ := rexFor_eq_ok hr
  have hpattern : tablePattern? (f.width == .word) r f.opcode none = some ⟨i.mnemonic, slots⟩ := by
    refine hp _ _ (fun hq hw => ?_) fun hb hq => ?_
    · simp only [rexFor, selectsQword, hq, hw] at hr
      cases hr
      rw [hw]
      rfl
    · rw [operandWidth, hbits, hq]
      cases hw : f.width with
      | byte => exact absurd hw hb
      | _ => rfl
  refine ⟨⟨⟨i.mnemonic, slots⟩, hopcode, hm, by simp, hpattern, hsize⟩, ?_⟩
  rw [Code.instruction?, Code.pattern?, hpattern]
  show (slots.mapM _ >>= fun operands => some ⟨i.mnemonic, operands⟩) = some i
  rw [hslots _ rfl]
  rfl

private theorem opcode_register {b : UInt8} (hb : b ∈ [0x50, 0x58, 0x90, 0xB0, 0xB8]) : ∀ r : Fin 8,
    Code.IsOpcode [b + UInt8.ofNat r.val] ∧ hasModRm [b + UInt8.ofNat r.val] = false ∧
      Fin.ofNat 8 (b + UInt8.ofNat r.val).toNat = r := by
  simp only [List.mem_cons, List.not_mem_nil, or_false] at hb
  rcases hb with rfl | rfl | rfl | rfl | rfl <;> decide

/-- The register that the last opcode byte holds leaves the opcode itself readable. -/
theorem spells_of_opcodeRegister {b : UInt8} {w : Width} {default : Bool} {bytes : List UInt8} {v : View} {c : Code}
    {i : Instruction} (slots : List Slot) (h : (Form.mk [b] w default bytes).withOpcodeRegister v = .ok c)
    (hb : b ∈ [0x50, 0x58, 0x90, 0xB0, 0xB8])
    (hp : ∀ plain u, (plain = true → w ≠ .word ∧ (w = .qword → default = true) ∧ v.isExtended = false) →
      (w ≠ .byte → default = false → u = w) →
      pattern? plain u 0 [b + UInt8.ofNat v.field.val] = some ⟨i.mnemonic, slots⟩)
    (hsize : bytes.length = (slots.map Slot.immediateSize).sum)
    (hslots : ∀ c : Code, c.immediate = bytes → c.operand? (.opcodeRegister v.width) = some (.register v) →
      slots.mapM c.operand? = some i.operands) : c.Spells i := by
  unfold Form.withOpcodeRegister at h
  obtain ⟨r, hr, h⟩ := bind_eq_ok.1 h
  cases h
  obtain ⟨hbits, hviews⟩ := rexFor_eq_ok hr
  obtain ⟨hopcode, hm, hfield⟩ := opcode_register hb v.field
  obtain ⟨hhigh, hneeds⟩ := hviews v List.mem_cons_self
  have hpattern : tablePattern? (w == .word) r [b + UInt8.ofNat v.field.val] none = some ⟨i.mnemonic, slots⟩ := by
    refine hp _ _ (fun hplain => ?_) fun hb hq => ?_
    · -- there is no REX byte, so none of its bits is set
      simp only [Bool.and_eq_true, Bool.not_eq_true', beq_eq_false_iff_ne, Option.isNone_iff_eq_none] at hplain
      obtain ⟨hword, rfl⟩ := hplain
      rw [Option.getD_none] at hbits
      have hw := congrArg Rex.w hbits
      have hx := congrArg Rex.b hbits
      refine ⟨hword, fun hq => ?_, hx.symm⟩
      simpa [Rex.absent, selectsQword, hq] using hw
    · rw [operandWidth, hbits, hq]
      cases hw : w with
      | byte => exact absurd hw hb
      | _ => rfl
  refine ⟨⟨⟨i.mnemonic, slots⟩, hopcode, hm, by simp, hpattern, hsize⟩, ?_⟩
  rw [Code.instruction?, Code.pattern?]
  show (tablePattern? (w == .word) r [b + UInt8.ofNat v.field.val] none >>= fun p =>
    p.slots.mapM _ >>= fun operands => some ⟨p.mnemonic, operands⟩) = some i
  rw [hpattern]
  show (slots.mapM _ >>= fun operands => some ⟨i.mnemonic, operands⟩) = some i
  rw [hslots _ rfl]
  · rfl
  · show some (Operand.register (View.ofNumber r.isSome v.width (extend (r.getD .absent).b
      (Fin.ofNat 8 (b + UInt8.ofNat v.field.val).toNat)))) = some (.register v)
    rw [hfield, hbits, View.ofNumber_extend hhigh hneeds]

/-! ### A place and an immediate -/

/-- A place with a digit, and an immediate. -/
theorem spells_immediate {a b : UInt8} {digit : Fin 8} {m : Mnemonic} {p : Place} {value : Int} {n : Width → Nat}
    {bytes : List UInt8} {c : Code} (hp : ∀ l, p = .memory l → l.address.WellFormed)
    (h : ((byWidth p.width a b).withImmediate bytes).withModRm (.digit digit) (.ofPlace p) = .ok c)
    (hopcode : Code.IsOpcode [a] ∧ Code.IsOpcode [b]) (hm : hasModRm [a] = true ∧ hasModRm [b] = true)
    (ha : ∀ plain w, pattern? plain w digit [a] = some ⟨m, [.place .byte, .immediate (n .byte) .byte]⟩)
    (hb : ∀ plain w, pattern? plain w digit [b] = some ⟨m, [.place w, .immediate (n w) w]⟩)
    (hsize : n p.width = bytes.length) (hvalue : signedOf bytes = value) :
    c.Spells ⟨m, [p.operand, .immediate value p.width.bits]⟩ := by
  have hf := Form.fills_of_withModRm hp h
  refine hf.spells_byWidth bytes (k := fun w => ⟨m, [.place w, .immediate (n w) w]⟩) hopcode hm ha hb rfl ?_ ?_
  · simp [Pattern.immediateSize, Slot.immediateSize, hsize]
  · simp [hf.operand_place, hf.operand_immediate hvalue]

/-- An immediate beside the accumulator, which no field holds. -/
theorem spells_accumulator {a b : UInt8} {m : Mnemonic} {w : Width} {value : Int} {n : Width → Nat}
    {bytes : List UInt8} {c : Code} (h : ((byWidth w a b).withImmediate bytes).implied = .ok c)
    (hopcode : Code.IsOpcode [a] ∧ Code.IsOpcode [b]) (hm : hasModRm [a] = false ∧ hasModRm [b] = false)
    (ha : ∀ plain w, pattern? plain w 0 [a] = some ⟨m, [.accumulator .byte, .immediate (n .byte) .byte]⟩)
    (hb : ∀ plain w, pattern? plain w 0 [b] = some ⟨m, [.accumulator w, .immediate (n w) w]⟩)
    (hsize : n w = bytes.length) (hvalue : signedOf bytes = value) :
    c.Spells ⟨m, [.register (.low .rax w), .immediate value w.bits]⟩ := by
  refine spells_of_implied [.accumulator w, .immediate (n w) w] h ?_ ?_ (fun plain u _ hw => ?_) ?_ fun c' hc' => ?_
  · show Code.IsOpcode [if w = .byte then a else b]
    split
    · exact hopcode.1
    · exact hopcode.2
  · show hasModRm [if w = .byte then a else b] = false
    split
    · exact hm.1
    · exact hm.2
  · have hw : w ≠ .byte → u = w := fun h => hw h rfl
    exact pattern?_byWidth (k := fun w => ⟨m, [.accumulator w, .immediate (n w) w]⟩) ha hb plain u hw
  · simp [Slot.immediateSize, hsize, Form.withImmediate]
  · have hc' : c'.immediate = bytes := hc'
    simp [Code.operand?, hc', hvalue]

theorem eq_of_isAccumulator {p : Place} (h : p.isAccumulator = true) : ∃ w, p = .register (.low .rax w) := by
  cases p with
  | register v =>
    cases v with
    | low c w => cases c <;> first | exact ⟨w, rfl⟩ | cases h
    | high b => cases h
  | memory l => cases h

/-- An immediate, with the short form for the accumulator. -/
theorem spells_constant {a b a' b' : UInt8} {digit : Fin 8} {m : Mnemonic} {p : Place} {value : Int} {n : Width → Nat}
    {bytes : List UInt8} {c : Code} (hp : ∀ l, p = .memory l → l.address.WellFormed)
    (h : (if p.isAccumulator then ((byWidth p.width a b).withImmediate bytes).implied
      else ((byWidth p.width a' b').withImmediate bytes).withModRm (.digit digit) (.ofPlace p)) = .ok c)
    (hopcode : Code.IsOpcode [a] ∧ Code.IsOpcode [b] ∧ Code.IsOpcode [a'] ∧ Code.IsOpcode [b'])
    (hm : hasModRm [a] = false ∧ hasModRm [b] = false ∧ hasModRm [a'] = true ∧ hasModRm [b'] = true)
    (ha : ∀ plain w, pattern? plain w 0 [a] = some ⟨m, [.accumulator .byte, .immediate (n .byte) .byte]⟩)
    (hb : ∀ plain w, pattern? plain w 0 [b] = some ⟨m, [.accumulator w, .immediate (n w) w]⟩)
    (ha' : ∀ plain w, pattern? plain w digit [a'] = some ⟨m, [.place .byte, .immediate (n .byte) .byte]⟩)
    (hb' : ∀ plain w, pattern? plain w digit [b'] = some ⟨m, [.place w, .immediate (n w) w]⟩)
    (hsize : n p.width = bytes.length) (hvalue : signedOf bytes = value) :
    c.Spells ⟨m, [p.operand, .immediate value p.width.bits]⟩ := by
  split at h
  · rename_i hacc
    obtain ⟨w, rfl⟩ := eq_of_isAccumulator hacc
    exact spells_accumulator h ⟨hopcode.1, hopcode.2.1⟩ ⟨hm.1, hm.2.1⟩ ha hb hsize hvalue
  · exact spells_immediate hp h hopcode.2.2 hm.2.2 ha' hb' hsize hvalue

/-- What reading establishes of the addresses among the operands. -/
def WellFormedAddresses (operands : List Operand) : Prop := ∀ l, .memory l ∈ operands → l.address.WellFormed

theorem wellFormed_place {p : Place} {operands : List Operand} (h : WellFormedAddresses operands)
    (hp : p.operand ∈ operands) : ∀ l, p = .memory l → l.address.WellFormed := by
  rintro l rfl
  exact h l hp

end MachineCode

end LongMode

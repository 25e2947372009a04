import LongMode.Proofs.MachineCode.Decode.Spelling

/-!
# Two operands of one width

The eight arithmetic operations, tests and moves take the same pairs of operands (`requirePair`), and their machine code
spells the instruction it was made from:

* `spells_encodeArithmetic`: the opcode is a column of the operation's group (`pattern?_arithmetic`).
* `spells_encodeTest`: up to the order of a register and memory.
* `spells_encodeMove`: with the immediate of a register in full.
-/

namespace LongMode

namespace MachineCode

/-- The eight operations in front of 40: the opcode is the column of the operation's group. -/
theorem pattern?_arithmetic (plain : Bool) (w : Width) (digit d : Fin 8) (column : Fin 6) :
    pattern? plain w d [UInt8.ofNat (8 * digit.val) + UInt8.ofNat column.val] =
      arithmeticColumn? (arithmetic digit) w column.val := by
  have hn : ∀ (digit : Fin 8) (column : Fin 6),
      (UInt8.ofNat (8 * digit.val) + UInt8.ofNat column.val).toNat = 8 * digit.val + column.val := by decide
  have hlt : 8 * digit.val + column.val < 0x40 := by omega
  have hdiv : (8 * digit.val + column.val) / 8 = digit.val := by omega
  have hmod : (8 * digit.val + column.val) % 8 = column.val := by omega
  have hdigit : Fin.ofNat 8 digit.val = digit := by simp
  show oneByte? plain w (UInt8.ofNat (8 * digit.val) + UInt8.ofNat column.val).toNat d = _
  rw [hn]
  unfold oneByte?
  rw [if_pos hlt, hdiv, hmod, hdigit]

theorem opcode_arithmetic : ∀ (digit : Fin 8) (column : Fin 6),
    Code.IsOpcode [UInt8.ofNat (8 * digit.val) + UInt8.ofNat column.val] ∧
      hasModRm [UInt8.ofNat (8 * digit.val) + UInt8.ofNat column.val] = decide (column.val < 4) := by
  decide

theorem spells_encodeArithmetic {digit : Fin 8} {d s : Operand} {c : Code} (hwf : WellFormedAddresses [d, s])
    (h : encodeArithmetic digit d s = .ok c) : c.Spells ⟨arithmetic digit, [d.reduced, s.reduced]⟩ := by
  have hop := opcode_arithmetic digit
  -- the first opcode of a group is written without an offset
  have hzero : ∀ b : UInt8, b + UInt8.ofNat (0 : Fin 6).val = b := by simp
  obtain ⟨pair, hpair, hk⟩ := bind_eq_ok.1 h
  rw [requirePair_eq_ok] at hpair
  clear h
  cases pair with
  | store p v =>
    obtain ⟨rfl, rfl, hw⟩ := hpair
    rw [Place.reduced_operand]
    have hop0 := hop 0
    have hp0 := fun plain w d => pattern?_arithmetic plain w digit d 0
    simp only [hzero] at hop0 hp0
    exact spells_store (wellFormed_place hwf List.mem_cons_self) hw hk ⟨hop0.1, (hop 1).1⟩ ⟨hop0.2, (hop 1).2⟩ hp0
      fun plain w d => pattern?_arithmetic plain w digit d 1
  | load v l =>
    obtain ⟨rfl, rfl, hw⟩ := hpair
    exact spells_load (hwf l (by simp)) hw hk ⟨(hop 2).1, (hop 3).1⟩ ⟨(hop 2).2, (hop 3).2⟩
      (fun plain w d => pattern?_arithmetic plain w digit d 2) fun plain w d => pattern?_arithmetic plain w digit d 3
  | constant p z =>
    obtain ⟨rfl, rfl⟩ := hpair
    rw [Place.reduced_operand]
    obtain ⟨value, hvalue, h⟩ := bind_eq_ok.1 hk
    clear hk
    obtain ⟨-, rfl⟩ := immediateValue_eq_ok.1 hvalue
    have hp := wellFormed_place hwf (List.mem_cons_self (a := p.operand))
    have hacc := fun plain w => pattern?_arithmetic plain w digit 0
    split at h
    · rename_i hb
      have hform : ∀ a b : UInt8, form [a] p.width = byWidth p.width a b := by simp [byWidth, hb]
      rw [hform _ (UInt8.ofNat (8 * digit.val) + 5), hform 0x80 0x81] at h
      refine spells_constant (n := fullSize) hp h ⟨(hop 4).1, (hop 5).1, by decide, by decide⟩
        ⟨(hop 4).2, (hop 5).2, by decide, by decide⟩ (fun plain w => hacc plain w 4) (fun plain w => hacc plain w 5)
        (fun _ _ => rfl) (fun _ _ => rfl) (by rw [hb]; rfl) ?_
      rw [hb]
      exact signedOf_byte z
    · rename_i hb
      split at h
      · rename_i h8
        have hf := Form.fills_of_withModRm hp h
        refine hf.spells [.place p.width, .immediate 1 p.width] (show Code.IsOpcode [0x83] by decide) rfl
          (fun plain w hw => ?_) rfl ?_
        · rw [hw hb rfl]
          rfl
        · have hi := hf.operand_immediate (signedOf_signedBytes (by decide) h8) 1 p.width
          simp [hf.operand_place, hi, Operand.reduced]
      · obtain ⟨bytes, hbytes, h⟩ := bind_eq_ok.1 h
        obtain ⟨hlen, hv⟩ := wideImmediate_eq_ok hb hbytes
        have hform : ∀ a b : UInt8, form [b] p.width = byWidth p.width a b := by simp [byWidth, hb]
        rw [hform (UInt8.ofNat (8 * digit.val) + 4), hform 0x80 0x81] at h
        exact spells_constant (n := fullSize) hp h ⟨(hop 4).1, (hop 5).1, by decide, by decide⟩
          ⟨(hop 4).2, (hop 5).2, by decide, by decide⟩ (fun plain w => hacc plain w 4) (fun plain w => hacc plain w 5)
          (fun _ _ => rfl) (fun _ _ => rfl) hlen hv

/-- A test has one form for a register and memory, whatever their order. -/
theorem spells_encodeTest {d s : Operand} {c : Code} (hwf : WellFormedAddresses [d, s]) (h : encodeTest d s = .ok c) :
    c.Spells (Instruction.mk .test [d, s]).canonical := by
  obtain ⟨pair, hpair, hk⟩ := bind_eq_ok.1 h
  rw [requirePair_eq_ok] at hpair
  clear h
  cases pair with
  | store p v =>
    obtain ⟨rfl, rfl, hw⟩ := hpair
    have hs := spells_store (m := .test) (wellFormed_place hwf List.mem_cons_self) hw hk ⟨by decide, by decide⟩
      ⟨rfl, rfl⟩ (fun _ _ _ => rfl) fun _ _ _ => rfl
    cases p <;> exact hs
  | load v l =>
    obtain ⟨rfl, rfl, hw⟩ := hpair
    have hk : (byWidth l.width 0x84 0x85).withModRm (.register v) (.address l.address) = .ok c := hw ▸ hk
    exact spells_store (p := .memory l) (wellFormed_place hwf (by simp [Place.operand])) hw.symm hk
      ⟨by decide, by decide⟩ ⟨rfl, rfl⟩ (fun _ _ _ => rfl) fun _ _ _ => rfl
  | constant p z =>
    obtain ⟨rfl, rfl⟩ := hpair
    obtain ⟨value, hvalue, h⟩ := bind_eq_ok.1 hk
    clear hk
    obtain ⟨-, rfl⟩ := immediateValue_eq_ok.1 hvalue
    obtain ⟨bytes, hspec, h⟩ : ∃ bytes, (fullSize p.width = bytes.length ∧ signedOf bytes = signed p.width.bits z) ∧
        (if p.isAccumulator then ((byWidth p.width 0xA8 0xA9).withImmediate bytes).implied
          else ((byWidth p.width 0xF6 0xF7).withImmediate bytes).withModRm (.digit 0) (.ofPlace p)) = .ok c :=
      exists_fullImmediate h
    have hs := spells_constant (m := .test) (n := fullSize) (wellFormed_place hwf List.mem_cons_self) h
      ⟨by decide, by decide, by decide, by decide⟩ ⟨rfl, rfl, rfl, rfl⟩ (fun _ _ => rfl) (fun _ _ => rfl)
      (fun _ _ => rfl) (fun _ _ => rfl) hspec.1 hspec.2
    cases p <;> exact hs

/-- The full immediate of a move to a register. -/
private theorem pattern?_moveByte (plain : Bool) (w : Width) :
    ∀ r : Fin 8, pattern? plain w 0 [0xB0 + UInt8.ofNat r.val] =
      some ⟨.mov, [.opcodeRegister .byte, .immediate 1 .byte]⟩
  | 0 | 1 | 2 | 3 | 4 | 5 | 6 | 7 => rfl

private theorem pattern?_move (plain : Bool) (w : Width) :
    ∀ r : Fin 8, pattern? plain w 0 [0xB8 + UInt8.ofNat r.val] =
      some ⟨.mov, [.opcodeRegister w, .immediate w.bytes w]⟩
  | 0 | 1 | 2 | 3 | 4 | 5 | 6 | 7 => rfl

private theorem spells_moveConstant {v : View} {z : Int} {c : Code}
    (h : ((byWidth v.width 0xB0 0xB8).withImmediate
      (signedBytes v.width.bytes (signed v.width.bits z))).withOpcodeRegister v = .ok c) :
    c.Spells ⟨.mov, [.register v, .immediate (signed v.width.bits z) v.width.bits]⟩ := by
  have hvalue : signedOf (signedBytes v.width.bytes (signed v.width.bits z)) = signed v.width.bits z :=
    signedOf_signedBytes (by cases v.width <;> decide) (fitsSigned_signed v.width z)
  refine spells_of_opcodeRegister [.opcodeRegister v.width, .immediate v.width.bytes v.width] h
    (by split <;> simp) (fun plain u _ hu => ?_) (by simp [Slot.immediateSize]) fun c hc hr => ?_
  · by_cases hb : v.width = .byte
    · rw [if_pos hb, pattern?_moveByte, hb]
      rfl
    · rw [if_neg hb, pattern?_move, hu hb rfl]
      rfl
  · have hi : c.operand? (.immediate v.width.bytes v.width) =
        some (.immediate (signed v.width.bits z) v.width.bits) := by
      rw [Code.operand?, hc, hvalue]
    simp [hr, hi]

theorem spells_encodeMove {d s : Operand} {c : Code} (hwf : WellFormedAddresses [d, s]) (h : encodeMove d s = .ok c) :
    c.Spells ⟨.mov, [d.reduced, s.reduced]⟩ := by
  obtain ⟨pair, hpair, hk⟩ := bind_eq_ok.1 h
  rw [requirePair_eq_ok] at hpair
  clear h
  cases pair with
  | store p v =>
    obtain ⟨rfl, rfl, hw⟩ := hpair
    rw [Place.reduced_operand]
    exact spells_store (wellFormed_place hwf List.mem_cons_self) hw hk ⟨by decide, by decide⟩ ⟨rfl, rfl⟩
      (fun _ _ _ => rfl) fun _ _ _ => rfl
  | load v l =>
    obtain ⟨rfl, rfl, hw⟩ := hpair
    exact spells_load (hwf l (by simp)) hw hk ⟨by decide, by decide⟩ ⟨rfl, rfl⟩ (fun _ _ _ => rfl) fun _ _ _ => rfl
  | constant p z =>
    obtain ⟨rfl, rfl⟩ := hpair
    rw [Place.reduced_operand]
    obtain ⟨value, hvalue, h⟩ := bind_eq_ok.1 hk
    clear hk
    obtain ⟨-, rfl⟩ := immediateValue_eq_ok.1 hvalue
    cases p with
    | register v => exact spells_moveConstant h
    | memory l =>
      obtain ⟨bytes, hspec, h⟩ := exists_fullImmediate h
      exact spells_immediate (p := .memory l) (n := fullSize) (wellFormed_place hwf List.mem_cons_self) h
        ⟨by decide, by decide⟩ ⟨rfl, rfl⟩ (fun _ _ => rfl) (fun _ _ => rfl) hspec.1 hspec.2

end MachineCode

end LongMode

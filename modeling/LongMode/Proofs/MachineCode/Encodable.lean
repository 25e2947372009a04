import LongMode.Proofs.MachineCode.Room

/-!
# Which operands have an encoding

One lemma for each encoder: it succeeds exactly when the operands have the shape that the engine accepts too, and the
fields have room for them.
-/

namespace LongMode

namespace MachineCode

/-! ### Two operands of one width -/

private theorem exists_requirePair {k : Pair → Except EncodeCause Code} {d s : Operand} {P : Prop}
    (h : ∀ pair : Pair, pair.Describes d s → ((∃ c, k pair = .ok c) ↔ P)) :
    (∃ c, (requirePair d s >>= k) = .ok c) ↔ (∃ pair : Pair, pair.Describes d s) ∧ P := by
  simp only [bind_eq_ok, requirePair_eq_ok]
  constructor
  · rintro ⟨c, pair, hp, hk⟩
    exact ⟨⟨pair, hp⟩, (h pair hp).1 ⟨c, hk⟩⟩
  · rintro ⟨⟨pair, hp⟩, hP⟩
    obtain ⟨c, hk⟩ := (h pair hp).2 hP
    exact ⟨c, pair, hp, hk⟩

/-- The operands of a pair fit into the fields of an encoding that holds 32 bits of a constant. -/
def FitsNarrow (d s : Operand) : Prop := ImmediatesFit [d, s] ∧ ¬ HasWideConstant [d, s] ∧ HasFields [d, s]

private theorem fitsNarrow_of_forall {d s : Operand} (h : ∀ o ∈ [d, s], o.isImmediate = false) :
    FitsNarrow d s ↔ HasFields [d, s] := by
  simp [FitsNarrow, immediatesFit_of_forall h, not_hasWideConstant_of_forall h]

private theorem fitsNarrow_constant {p : Place} {z : Int} :
    FitsNarrow p.operand (.immediate z p.width.bits) ↔ fits p.width.bits z = true ∧
      (p.width = .qword → IsDword (signed 64 z)) ∧ HasFields [p.operand, .immediate z p.width.bits] := by
  simp [FitsNarrow, immediatesFit_constant, hasWideConstant_constant]

private theorem exists_requireNarrow {k : Pair → Except EncodeCause Code} {d s : Operand}
    (hstore : ∀ p v, p.width = v.width → ((∃ c, k (.store p v) = .ok c) ↔ HasFields [p.operand, .register v]))
    (hload : ∀ v l, (∃ c, k (.load v l) = .ok c) ↔ HasFields [.register v, .memory l])
    (hconstant : ∀ p z, (∃ c, k (.constant p z) = .ok c) ↔ FitsNarrow p.operand (.immediate z p.width.bits)) :
    (∃ c, (requirePair d s >>= k) = .ok c) ↔ (∃ pair : Pair, pair.Describes d s) ∧ FitsNarrow d s := by
  refine exists_requirePair fun pair hp => ?_
  cases pair with
  | store p v =>
    obtain ⟨rfl, rfl, hw⟩ := hp
    rw [fitsNarrow_of_forall (by cases p <;> simp [Place.operand, Operand.isImmediate])]
    exact hstore p v hw
  | load v l =>
    obtain ⟨rfl, rfl, -⟩ := hp
    rw [fitsNarrow_of_forall (by simp [Operand.isImmediate])]
    exact hload v l
  | constant p z =>
    obtain ⟨rfl, rfl⟩ := hp
    exact hconstant p z

theorem exists_encodeArithmetic {digit : Fin 8} {d s : Operand} :
    (∃ c, encodeArithmetic digit d s = .ok c) ↔ (∃ pair : Pair, pair.Describes d s) ∧ FitsNarrow d s := by
  refine exists_requireNarrow (fun _ _ hw => exists_store hw rfl) (fun _ _ => exists_load rfl) fun p z => ?_
  rw [fitsNarrow_constant]
  refine exists_immediateValue.trans (and_congr_right' ?_)
  by_cases hb : p.width = .byte
  · simp only [hb, if_true]
    exact (exists_accumulator hb.symm).trans ⟨fun h => ⟨by simp, h⟩, And.right⟩
  · simp only [hb, if_false]
    by_cases h8 : fitsSigned 8 (signed p.width.bits z) = true
    · simp only [h8, if_true]
      exact (exists_constant rfl).trans (and_iff_right (isDword_of_byte h8)).symm
    · simp only [h8]
      exact exists_wide fun bytes => exists_accumulator rfl

theorem exists_encodeTest {d s : Operand} :
    (∃ c, encodeTest d s = .ok c) ↔ (∃ pair : Pair, pair.Describes d s) ∧ FitsNarrow d s := by
  refine exists_requireNarrow (fun _ _ hw => exists_store hw rfl) (fun _ _ => exists_load rfl) fun p z => ?_
  rw [fitsNarrow_constant]
  refine exists_immediateValue.trans (and_congr_right' ?_)
  by_cases hb : p.width = .byte
  · simp only [hb, if_true]
    exact (exists_accumulator hb.symm).trans ⟨fun h => ⟨by simp, h⟩, And.right⟩
  · simp only [hb, if_false]
    exact exists_wide fun bytes => exists_accumulator rfl

/-- A move to a register holds a constant of any width. -/
theorem exists_encodeMove {d s : Operand} :
    (∃ c, encodeMove d s = .ok c) ↔ (∃ pair : Pair, pair.Describes d s) ∧
      ImmediatesFit [d, s] ∧ ¬ (d.isMemory = true ∧ HasWideConstant [d, s]) ∧ HasFields [d, s] := by
  refine exists_requirePair fun pair hp => ?_
  cases pair with
  | store p v =>
    obtain ⟨rfl, rfl, hw⟩ := hp
    have hi : ∀ o ∈ [p.operand, .register v], o.isImmediate = false := by
      cases p <;> simp [Place.operand, Operand.isImmediate]
    simp only [immediatesFit_of_forall hi, not_hasWideConstant_of_forall hi, and_false, not_false_eq_true, true_and]
    exact exists_store hw rfl
  | load v l =>
    obtain ⟨rfl, rfl, hw⟩ := hp
    have hi : ∀ o ∈ [Operand.register v, .memory l], o.isImmediate = false := by simp [Operand.isImmediate]
    simp only [immediatesFit_of_forall hi, not_hasWideConstant_of_forall hi, and_false, not_false_eq_true, true_and]
    exact exists_load rfl
  | constant p z =>
    obtain ⟨rfl, rfl⟩ := hp
    rw [immediatesFit_constant]
    refine exists_immediateValue.trans (and_congr_right' ?_)
    cases p with
    | register v =>
      refine iff_of_true (exists_withOpcodeRegister fun hh => ?_) ⟨?_, hasFields_register v z _⟩
      · cases v with
        | low c w => cases hh
        | high b => rfl
      · simp [Place.operand, Operand.isMemory]
    | memory l =>
      rw [hasWideConstant_constant]
      simp only [Place.operand, Operand.isMemory, true_and, not_and, Classical.not_not]
      by_cases hb : l.width = .byte
      · simp only [hb, if_true]
        exact (exists_constant (p := .memory l) hb.symm).trans
          ⟨fun h => ⟨fun hq => absurd (hb.symm.trans hq) (by simp), h⟩, And.right⟩
      · simp only [hb, if_false]
        exact exists_wide fun bytes => exists_constant (p := .memory l) rfl

/-! ### The other forms -/

/-- A source that is not wider than a double word does not select 64-bit operands. -/
private theorem exists_widening {f : Form} {v : View} {p : Place} (hf : f.width = v.width)
    (hq : f.qwordByDefault = false) (hp : p.width ≠ .qword) :
    (∃ c, f.withModRm (.register v) (.ofPlace p) = .ok c) ↔ HasFields [.register v, p.operand] := by
  refine exists_withModRm (fun o _ => ?_) fun b _ => ?_
  · simp [RegOperand.operands, or_comm]
  · rw [hf, hq]
    simp only [selectsQword, Bool.not_false, Bool.and_true, beq_iff_eq]
    constructor
    · exact fun hv => ⟨v, by simp, hv⟩
    · rintro ⟨u, hu, huq⟩
      rcases List.mem_cons.1 hu with hu | hu
      · cases hu
        exact huq
      · have hpu := register_operand (List.mem_singleton.1 hu).symm
        exact absurd (hpu ▸ huq) hp

theorem exists_encodeExtension {opcode : UInt8} {d s : Operand} :
    (∃ c, encodeExtension opcode d s = .ok c) ↔ Operation.Extends d s ∧ HasFields [d, s] := by
  simp only [encodeExtension, exists_bind_eq_ok, requireRegister_eq_ok, requirePlace_eq_ok]
  constructor
  · rintro ⟨p, rfl, v, ⟨rfl, hv⟩, c, h⟩
    split at h
    · rename_i hw
      exact ⟨⟨v, p, rfl, rfl, hv, hw⟩, (exists_widening rfl rfl (by rintro hq; simp [hq] at hw)).1 ⟨c, h⟩⟩
    · cases h
  · rintro ⟨⟨v, p, rfl, rfl, hv, hw⟩, hfields⟩
    refine ⟨p, rfl, v, ⟨rfl, hv⟩, ?_⟩
    rw [if_pos hw]
    exact (exists_widening rfl rfl (by rintro hq; simp [hq] at hw)).2 hfields

theorem exists_encodeSignExtension {d s : Operand} :
    (∃ c, encodeSignExtension d s = .ok c) ↔
      (∃ op, Operation.ofDwordSignExtension d s = .ok op) ∧ HasFields [d, s] := by
  rw [Operation.exists_ofDwordSignExtension]
  simp only [encodeSignExtension, exists_bind_eq_ok, requireRegister_eq_ok, requirePlace_eq_ok, List.mem_singleton]
  constructor
  · rintro ⟨p, rfl, v, ⟨rfl, hv⟩, c, h⟩
    split at h
    · rename_i hw
      exact ⟨⟨v, p, rfl, rfl, hv, hw⟩, (exists_widening hv.symm rfl (by simp [hw])).1 ⟨c, h⟩⟩
    · cases h
  · rintro ⟨⟨v, p, rfl, rfl, hv, hw⟩, hfields⟩
    refine ⟨p, rfl, v, ⟨rfl, hv⟩, ?_⟩
    rw [if_pos hw]
    exact (exists_widening hv.symm rfl (by simp [hw])).2 hfields

theorem exists_encodeLoadAddress {d s : Operand} :
    (∃ c, encodeLoadAddress d s = .ok c) ↔ (∃ op, Operation.ofLoadAddress d s = .ok op) ∧ HasFields [d, s] := by
  rw [Operation.exists_ofLoadAddress]
  simp only [encodeLoadAddress, exists_bind_eq_ok, requireRegister_eq_ok]
  constructor
  · rintro ⟨v, ⟨rfl, hv⟩, c, h⟩
    cases s with
    | memory l => exact ⟨⟨v, l, rfl, rfl, hv⟩, (exists_load rfl).1 ⟨c, h⟩⟩
    | _ => cases h
  · rintro ⟨⟨v, l, rfl, rfl, hv⟩, hfields⟩
    exact ⟨v, ⟨rfl, hv⟩, (exists_load rfl).2 hfields⟩

/-- The short form of an exchange is for registers that are wider than a byte. -/
private theorem exists_exchange {u v : View} (hw : u.width = v.width) :
    (∃ c, (match exchangePartner? u v with
      | some partner => (form [0x90] u.width).withOpcodeRegister partner
      | none => (byWidth u.width 0x86 0x87).withModRm (.register v) (.register u)) = .ok c) ↔
      HasFields [.register u, .register v] := by
  split
  · rename_i partner hp
    unfold exchangePartner? at hp
    split at hp
    · cases hp
    · rename_i hb
      -- the short form is filled with one of the two, and neither is a high byte
      have hu : partner = u ∨ partner = v := by
        rw [Option.filter_eq_some_iff] at hp
        have hp := hp.1
        split at hp
        · exact .inr (Option.some.inj hp).symm
        · split at hp
          · exact .inl (Option.some.inj hp).symm
          · cases hp
      have hpw : partner.width = u.width := by
        rcases hu with rfl | rfl
        · rfl
        · exact hw.symm
      refine iff_of_true (exists_withOpcodeRegister fun hh => ?_) (hasFields_of_registers (by simp) fun b hb' => ?_)
      · cases partner with
        | low c w => cases hh
        | high b => exact hpw.symm
      · refine absurd ?_ hb
        rcases List.mem_cons.1 hb' with h | h
        · cases h
          rfl
        · cases List.mem_singleton.1 h
          exact hw
  · exact exists_store (p := .register u) hw rfl

theorem exists_encodeExchange {a b : Operand} :
    (∃ c, encodeExchange a b = .ok c) ↔
      (∃ op, Operation.ofExchange a b = .ok op) ∧ ¬ (a.isMemory = true ∧ b.isMemory = true) ∧ HasFields [a, b] := by
  rw [Operation.exists_ofExchange]
  simp only [encodeExchange, exists_bind_eq_ok, requirePlace_eq_ok, requirePair_eq_ok]
  constructor
  · rintro ⟨q, rfl, pair, hp, hc⟩
    cases pair with
    | store p v =>
      obtain ⟨rfl, hv, hw⟩ := hp
      obtain rfl := register_operand hv
      refine ⟨⟨p, .register v, rfl, rfl, hw⟩, by simp [Place.operand, Operand.isMemory], ?_⟩
      cases p with
      | register u => exact (exists_exchange hw).1 hc
      | memory l => exact (exists_store (p := .memory l) hw rfl).1 hc
    | load v l =>
      obtain ⟨rfl, hl, hw⟩ := hp
      obtain rfl : q = .memory l := Place.operand_inj.1 hl
      exact ⟨⟨.register v, .memory l, rfl, rfl, hw⟩, by simp [Operand.isMemory], (exists_load rfl).1 hc⟩
    | constant p z =>
      obtain ⟨c, hc⟩ := hc
      cases hc
  · rintro ⟨⟨p, q, rfl, rfl, hw⟩, hm, hfields⟩
    refine ⟨q, rfl, ?_⟩
    cases q with
    | register v =>
      refine ⟨.store p v, ⟨rfl, rfl, hw⟩, ?_⟩
      cases p with
      | register u => exact (exists_exchange hw).2 hfields
      | memory l => exact (exists_store (p := .memory l) hw rfl).2 hfields
    | memory l =>
      cases p with
      | register v => exact ⟨.load v l, ⟨rfl, rfl, hw⟩, (exists_load rfl).2 hfields⟩
      | memory l' => exact absurd ⟨rfl, rfl⟩ hm

theorem exists_encodePush {s : Operand} :
    (∃ c, encodePush s = .ok c) ↔
      (∃ op, Operation.ofPush s = .ok op) ∧ ImmediatesFit [s] ∧ ¬ HasWideConstant [s] ∧ HasFields [s] := by
  rw [Operation.exists_ofPush]
  unfold encodePush
  split
  · rename_i h
    simp [h]
  · rename_i h
    have h : s.bits = 64 := Classical.not_not.1 h
    rw [and_iff_right h]
    cases s with
    | register v =>
      have hv : v.width = .qword := Width.eq_of_bits_eq (w := .qword) h
      have hh : ∀ u, .register u ∈ [Operand.register v] → u.isHighByte = false := by
        intro u hu
        cases List.mem_singleton.1 hu
        cases v with
        | low c w => rfl
        | high b => cases hv
      refine iff_of_true (exists_withOpcodeRegister fun h => ?_) ⟨?_, ?_, hasFields_of_forall (by simp) hh⟩
      · rw [hh v (by simp)] at h
        cases h
      · exact immediatesFit_of_forall (by simp [Operand.isImmediate])
      · exact not_hasWideConstant_of_forall (by simp [Operand.isImmediate])
    | vector x => cases h
    | memory l =>
      have hi : ∀ o ∈ [Operand.memory l], o.isImmediate = false := by simp [Operand.isImmediate]
      rw [and_iff_right (immediatesFit_of_forall hi), and_iff_right (not_hasWideConstant_of_forall hi)]
      exact exists_digit (p := .memory l) (Width.eq_of_bits_eq (v := .qword) h.symm)
    | immediate z n =>
      obtain rfl : n = 64 := h
      have hfields : HasFields [.immediate z 64] := hasFields_of_forall (by simp) (by simp)
      have hwide : ¬ HasWideConstant [.immediate z 64] ↔ IsDword (signed 64 z) := by simp [HasWideConstant]
      have hfit : ImmediatesFit [.immediate z 64] ↔ fits 64 z = true := by simp [ImmediatesFit]
      rw [hwide, hfit, and_iff_left hfields]
      refine exists_immediateValue.trans (and_congr_right' ?_)
      split
      · rename_i h8
        exact iff_of_true (exists_implied _) (isDword_of_byte h8 rfl)
      · exact (exists_wide fun bytes => iff_of_true (exists_implied _) trivial).trans (by simp)

theorem exists_encodePop {d : Operand} :
    (∃ c, encodePop d = .ok c) ↔ (∃ op, Operation.ofPop d = .ok op) ∧ HasFields [d] := by
  rw [Operation.exists_ofPop]
  have hregister : ∀ v : View, v.width = .qword →
      ((∃ c, (Form.mk [0x58] .qword true []).withOpcodeRegister v = .ok c) ↔ HasFields [.register v]) := by
    intro v hw
    have hh : v.isHighByte = false := by
      cases v with
      | low c w => rfl
      | high b => cases hw
    refine iff_of_true (exists_withOpcodeRegister (by simp [hh])) (hasFields_of_forall (by simp) ?_)
    rintro u hu
    cases List.mem_singleton.1 hu
    exact hh
  have hmemory : ∀ l : Location, l.width = .qword →
      ((∃ c, (Form.mk [0x8F] .qword true []).withModRm (.digit 0) (.address l.address) = .ok c) ↔
        HasFields [.memory l]) :=
    fun l hw => exists_digit (p := .memory l) hw.symm
  simp only [encodePop, exists_bind_eq_ok, requirePlace_eq_ok]
  constructor
  · rintro ⟨p, rfl, c, h⟩
    split at h
    · cases h
    · rename_i hw
      have hw := Classical.not_not.1 hw
      cases p with
      | register v => exact ⟨⟨_, rfl, hw⟩, (hregister v hw).1 ⟨c, h⟩⟩
      | memory l => exact ⟨⟨_, rfl, hw⟩, (hmemory l hw).1 ⟨c, h⟩⟩
  · rintro ⟨⟨p, rfl, hw⟩, hfields⟩
    refine ⟨p, rfl, ?_⟩
    rw [if_neg (not_not_intro hw)]
    cases p with
    | register v => exact (hregister v hw).2 hfields
    | memory l => exact (hmemory l hw).2 hfields

theorem exists_encodeRegisterSource {opcode : List UInt8} {d s : Operand} :
    (∃ c, encodeRegisterSource opcode d s = .ok c) ↔
      (∃ v p, Operation.requireRegisterPair d s = .ok (v, p)) ∧ HasFields [d, s] := by
  have hform : ∀ (v : View) (p : Place), v.width = p.width →
      ((∃ c, (form opcode v.width).withModRm (.register v) (.ofPlace p) = .ok c) ↔
        HasFields [.register v, p.operand]) :=
    fun v p hw => exists_registerField rfl (by rintro u rfl; exact hw.symm) (by simp [or_comm])
  simp only [Operation.requireRegisterPair_eq_ok, encodeRegisterSource, exists_bind_eq_ok, requireRegister_eq_ok,
    requirePlace_eq_ok, requireSameWidth_eq_ok]
  constructor
  · rintro ⟨v, ⟨rfl, hv⟩, p, rfl, -, hb, hc⟩
    rw [Place.bits_operand] at hb
    have hw := Width.eq_of_bits_eq hb
    exact ⟨⟨v, p, rfl, hv, rfl, hw⟩, (hform v p hw).1 hc⟩
  · rintro ⟨⟨v, p, rfl, hv, rfl, hw⟩, hfields⟩
    refine ⟨v, ⟨rfl, hv⟩, p, rfl, (), ?_, (hform v p hw).2 hfields⟩
    rw [Place.bits_operand, ← hw]
    rfl

theorem exists_encodeUnary {byteOpcode opcode : UInt8} {digit : Fin 8} {o : Operand} :
    (∃ c, encodeUnary byteOpcode opcode digit o = .ok c) ↔ (∃ p : Place, o = p.operand) ∧ HasFields [o] := by
  simp only [encodeUnary, exists_bind_eq_ok, requirePlace_eq_ok]
  constructor
  · rintro ⟨p, rfl, hc⟩
    exact ⟨⟨p, rfl⟩, (exists_digit rfl).1 hc⟩
  · rintro ⟨⟨p, rfl⟩, hfields⟩
    exact ⟨p, rfl, (exists_digit rfl).2 hfields⟩

/-- A register, a place of its width and a constant. -/
private theorem exists_factor {v : View} {p : Place} {z : Int} (hw : v.width = p.width) :
    (∃ c, (do
        let value ← immediateValue v.width z
        if fitsSigned 8 value then
          ((form [0x6B] v.width).withImmediate (signedBytes 1 value)).withModRm (.register v) (.ofPlace p)
        else
          ((form [0x69] v.width).withImmediate (← wideImmediate v.width value)).withModRm (.register v)
            (.ofPlace p)) = .ok c) ↔
      ImmediatesFit [.register v, p.operand, .immediate z v.bits] ∧
        ¬ HasWideConstant [.register v, p.operand, .immediate z v.bits] ∧
        HasFields [.register v, p.operand, .immediate z v.bits] := by
  have hmem : ∀ y n, .immediate y n ∈ [.register v, p.operand, .immediate z v.bits] ↔ y = z ∧ n = v.bits := by
    intro y n
    cases p <;> simp [Place.operand]
  have hfit : ImmediatesFit [.register v, p.operand, .immediate z v.bits] ↔ fits v.width.bits z = true := by
    simp only [ImmediatesFit, hmem]
    exact ⟨fun h => h z _ ⟨rfl, rfl⟩, by rintro h y n ⟨rfl, rfl⟩; exact h⟩
  have hq : (64 : Nat) = v.bits ↔ v.width = .qword := eq_comm.trans (Width.bits_inj (w := .qword))
  have hwide : ¬ HasWideConstant [.register v, p.operand, .immediate z v.bits] ↔
      (v.width = .qword → IsDword (signed 64 z)) := by
    simp [HasWideConstant, hmem, hq, and_assoc]
  have hmod : ∀ g : Form, g.width = v.width → ((∃ c, g.withModRm (.register v) (.ofPlace p) = .ok c) ↔
      HasFields [.register v, p.operand, .immediate z v.bits]) := by
    intro g hg
    refine exists_registerField hg (by rintro u rfl; exact hw.symm) fun o hi => ?_
    simp only [List.mem_cons, List.not_mem_nil, or_false]
    constructor
    · rintro (rfl | rfl | rfl)
      · exact .inr rfl
      · exact .inl rfl
      · cases hi
    · rintro (rfl | rfl)
      · exact .inr (.inl rfl)
      · exact .inl rfl
  rw [hfit, hwide]
  refine exists_immediateValue.trans (and_congr_right' ?_)
  split
  · rename_i h8
    exact (hmod _ rfl).trans (and_iff_right (isDword_of_byte h8)).symm
  · exact exists_wide fun bytes => hmod _ rfl

theorem exists_encodeMultiply {d s f : Operand} :
    (∃ c, encodeMultiply d s f = .ok c) ↔ (∃ op, Operation.ofMultiplyByConstant d s f = .ok op) ∧
      ImmediatesFit [d, s, f] ∧ ¬ HasWideConstant [d, s, f] ∧ HasFields [d, s, f] := by
  rw [Operation.exists_ofMultiplyByConstant]
  simp only [encodeMultiply, exists_bind_eq_ok, requireRegister_eq_ok, requirePlace_eq_ok, requireSameWidth_eq_ok]
  constructor
  · rintro ⟨v, ⟨rfl, hv⟩, p, rfl, -, hb, c, h⟩
    rw [Place.bits_operand] at hb
    have hw := Width.eq_of_bits_eq hb
    cases f with
    | immediate z n =>
      dsimp only at h
      split at h
      · cases h
      · rename_i hn
        obtain rfl := Classical.not_not.1 hn
        exact ⟨⟨v, p, z, rfl, hv, rfl, hw, rfl⟩, (exists_factor hw).1 ⟨c, h⟩⟩
    | _ => cases h
  · rintro ⟨⟨v, p, z, rfl, hv, rfl, hw, rfl⟩, hfits⟩
    refine ⟨v, ⟨rfl, hv⟩, p, rfl, (), by rw [Place.bits_operand, ← hw]; rfl, ?_⟩
    simpa using (exists_factor hw).2 hfits

/-- The count cl stands in no field, and needs none. -/
private theorem hasFields_cl {o : Operand} : HasFields [o, .register (.low .rcx .byte)] ↔ HasFields [o] := by
  have hcl : ¬ (Operand.register (.low .rcx .byte)).NeedsRex := by
    simp [Operand.NeedsRex, View.width, View.cell, upperCells, rexBytes]
  simp [HasFields, HasFarDisplacement, MixesHighByte, hcl]

private theorem exists_count {digit : Fin 8} {p : Place} {z : Int} :
    (∃ code, (immediateValue .byte z >>= fun value =>
        if value = 1 then (byWidth p.width 0xD0 0xD1).withModRm (.digit digit) (.ofPlace p)
        else ((byWidth p.width 0xC0 0xC1).withImmediate (signedBytes 1 value)).withModRm (.digit digit)
          (.ofPlace p)) = .ok code) ↔
      ImmediatesFit [p.operand, .immediate z 8] ∧ HasFields [p.operand, .immediate z 8] := by
  rw [immediatesFit_constant]
  refine exists_immediateValue.trans (and_congr_right' ?_)
  split
  · exact exists_constant rfl
  · exact exists_constant rfl

/-- The count of a shift is a byte. -/
theorem exists_encodeShift {digit : Fin 8} {d c : Operand} (hc : ∀ z n, c = .immediate z n → n = 8) :
    (∃ code, encodeShift digit d c = .ok code) ↔
      (∃ p : Place, d = p.operand ∧ (c = .register (.low .rcx .byte) ∨ ∃ z n, c = .immediate z n)) ∧
        ImmediatesFit [d, c] ∧ HasFields [d, c] := by
  simp only [encodeShift, exists_bind_eq_ok, requirePlace_eq_ok]
  constructor
  · rintro ⟨p, rfl, code, h⟩
    cases c with
    | register v =>
      dsimp only at h
      split at h
      · cases h
      · rename_i hv
        obtain rfl := Classical.not_not.1 hv
        refine ⟨⟨p, rfl, .inl rfl⟩, immediatesFit_of_forall ?_, hasFields_cl.2 ((exists_digit rfl).1 ⟨code, h⟩)⟩
        cases p <;> simp [Place.operand, Operand.isImmediate]
    | immediate z n =>
      obtain rfl := hc z n rfl
      exact ⟨⟨p, rfl, .inr ⟨z, 8, rfl⟩⟩, exists_count.1 ⟨code, h⟩⟩
    | _ => cases h
  · rintro ⟨⟨p, rfl, rfl | ⟨z, n, rfl⟩⟩, hfits, hfields⟩
    · refine ⟨p, rfl, ?_⟩
      simp only [ne_eq, not_true_eq_false, if_false]
      exact (exists_digit rfl).2 (hasFields_cl.1 hfields)
    · obtain rfl := hc z n rfl
      exact ⟨p, rfl, exists_count.2 ⟨hfits, hfields⟩⟩

theorem exists_encodePackedAdd {d s : Operand} :
    (∃ c, encodePackedAdd d s = .ok c) ↔ (∃ op, Operation.ofPackedAdd d s = .ok op) ∧ HasFields [d, s] := by
  rw [Operation.exists_ofPackedAdd]
  constructor
  · rintro ⟨c, h⟩
    cases d <;> cases s <;> try cases h
    exact ⟨⟨_, _, rfl, rfl⟩, hasFields_of_forall (by simp) (by simp)⟩
  · rintro ⟨⟨x, y, rfl, rfl⟩, -⟩
    exact ⟨_, rfl⟩

end MachineCode

end LongMode

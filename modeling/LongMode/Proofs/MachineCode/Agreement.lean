import LongMode.Proofs.Assembly.Shape
import LongMode.Proofs.MachineCode.Encodable

/-!
# The encoder and the engine agree

The encoder and the engine check operands on their own.  Of the instructions that can be read, the encoder accepts those
that the engine does not refuse, but for the three restrictions of the encoding (`exists_code_iff`).
-/

namespace LongMode

/-- The mnemonics whose constants have at most 32 bits in every form. -/
def Mnemonic.narrowConstants : List Mnemonic := [add, or, adc, sbb, and, sub, xor, cmp, test, push]

/-- A constant of 64 bits in a form that has a field of 32 bits for it. -/
def Instruction.OverflowsConstant (i : Instruction) : Prop :=
  HasWideConstant i.operands ∧
    (i.mnemonic ∈ Mnemonic.narrowConstants ∨
      i.mnemonic = .imul ∧ i.operands.length = 3 ∨
      i.mnemonic = .mov ∧ ∃ l, i.operands[0]? = some (.memory l) ∧ l.width = .qword)

namespace MachineCode

private theorem memoryOperands_pair {m : Mnemonic} {d s : Operand} :
    (Instruction.mk m [d, s]).memoryOperands ≤ 1 ↔ ¬ (d.isMemory = true ∧ s.isMemory = true) := by
  cases hd : d.isMemory <;> cases hs : s.isMemory <;> simp [Instruction.memoryOperands, hd, hs]

private theorem narrow_iff {m : Mnemonic} {f : Place → Source → Operation} {d s : Operand}
    (hm : m ∈ Mnemonic.narrowConstants) :
    (∃ pair : Pair, pair.Describes d s) ∧ FitsNarrow d s ↔
      (∃ op, Operation.ofPair f d s = .ok op) ∧ (Instruction.mk m [d, s]).memoryOperands ≤ 1 ∧
        ImmediatesFit [d, s] ∧ ¬ (Instruction.mk m [d, s]).OverflowsConstant ∧ HasFields [d, s] := by
  have hover : (Instruction.mk m [d, s]).OverflowsConstant ↔ HasWideConstant [d, s] :=
    and_iff_left (.inl hm)
  rw [exists_describes (f := f), memoryOperands_pair, hover, FitsNarrow, and_assoc]

private theorem plain_iff {i : Instruction} {A : Prop} (hover : ¬ i.OverflowsConstant)
    (hA : A → i.memoryOperands ≤ 1 ∧ ImmediatesFit i.operands) :
    A ∧ HasFields i.operands ↔
      A ∧ i.memoryOperands ≤ 1 ∧ ImmediatesFit i.operands ∧ ¬ i.OverflowsConstant ∧ HasFields i.operands :=
  ⟨fun ⟨ha, hf⟩ => ⟨ha, (hA ha).1, (hA ha).2, hover, hf⟩, fun ⟨ha, _, _, _, hf⟩ => ⟨ha, hf⟩⟩

private theorem plain_register_place {m : Mnemonic} {v : View} {p : Place} :
    (Instruction.mk m [.register v, p.operand]).memoryOperands ≤ 1 ∧ ImmediatesFit [.register v, p.operand] := by
  rw [memoryOperands_pair]
  refine ⟨by simp [Operand.isMemory], immediatesFit_of_forall ?_⟩
  cases p <;> simp [Place.operand, Operand.isImmediate]

private theorem not_overflows {m : Mnemonic} {operands : List Operand}
    (hm : m ∉ Mnemonic.narrowConstants ++ [.imul, .mov]) : ¬ (Instruction.mk m operands).OverflowsConstant := by
  rintro ⟨-, h | ⟨rfl, -⟩ | ⟨rfl, -⟩⟩
  · exact hm (List.mem_append_left _ h)
  · exact hm (by simp)
  · exact hm (by simp)

/-- What the encoder and the engine ask of an instruction, once its operands are counted and its vector registers are
allowed. -/
def Agrees (i : Instruction) : Prop :=
  (∃ c, encodeOperands i.mnemonic i.operands = .ok c) ↔
    (∃ op, i.operation = .ok op) ∧ i.memoryOperands ≤ 1 ∧ ImmediatesFit i.operands ∧ ¬ i.OverflowsConstant ∧
      HasFields i.operands

private theorem agrees_extension {m : Mnemonic} {opcode : UInt8} {d s : Operand}
    (hm : m ∉ Mnemonic.narrowConstants ++ [.imul, .mov])
    (he : encodeOperands m [d, s] = encodeExtension opcode d s)
    (ho : (∃ op, (Instruction.mk m [d, s]).operation = .ok op) ↔ Operation.Extends d s) : Agrees ⟨m, [d, s]⟩ := by
  unfold Agrees
  rw [ho, he, exists_encodeExtension]
  refine plain_iff (i := ⟨m, [d, s]⟩) (not_overflows hm) ?_
  rintro ⟨v, p, rfl, rfl, -⟩
  exact plain_register_place

private theorem agrees_registerSource {m : Mnemonic} {opcode : List UInt8} {d s : Operand}
    (hm : ¬ (Instruction.mk m [d, s]).OverflowsConstant)
    (he : encodeOperands m [d, s] = encodeRegisterSource opcode d s)
    (ho : (∃ op, (Instruction.mk m [d, s]).operation = .ok op) ↔
      ∃ v p, Operation.requireRegisterPair d s = .ok (v, p)) : Agrees ⟨m, [d, s]⟩ := by
  unfold Agrees
  rw [ho, he, exists_encodeRegisterSource]
  refine plain_iff (i := ⟨m, [d, s]⟩) hm ?_
  rintro ⟨v, p, h⟩
  obtain ⟨rfl, -, rfl, -⟩ := Operation.requireRegisterPair_eq_ok.1 h
  exact plain_register_place

private theorem plain_place {m : Mnemonic} {p : Place} :
    (Instruction.mk m [p.operand]).memoryOperands ≤ 1 ∧ ImmediatesFit [p.operand] := by
  cases p <;> simp [Instruction.memoryOperands, ImmediatesFit, Place.operand, Operand.isMemory]

private theorem agrees_unary {m : Mnemonic} {byteOpcode opcode : UInt8} {digit : Fin 8} {o : Operand}
    (hm : ¬ (Instruction.mk m [o]).OverflowsConstant)
    (he : encodeOperands m [o] = encodeUnary byteOpcode opcode digit o)
    (ho : (∃ op, (Instruction.mk m [o]).operation = .ok op) ↔ ∃ p : Place, o = p.operand) : Agrees ⟨m, [o]⟩ := by
  unfold Agrees
  rw [ho, he, exists_encodeUnary]
  refine plain_iff (i := ⟨m, [o]⟩) hm ?_
  rintro ⟨p, rfl⟩
  exact plain_place

private theorem agrees_shift {m : Mnemonic} {f : Place → Source → Operation} {digit : Fin 8} {d c : Operand}
    (hm : m ∉ Mnemonic.narrowConstants ++ [.imul, .mov]) (hc : ∀ z n, c = .immediate z n → n = 8)
    (he : encodeOperands m [d, c] = encodeShift digit d c)
    (ho : (Instruction.mk m [d, c]).operation = Operation.ofCount f d c) : Agrees ⟨m, [d, c]⟩ := by
  unfold Agrees
  rw [ho, he, exists_encodeShift hc, Operation.exists_ofCount]
  have hmem : (∃ p : Place, d = p.operand ∧ (c = .register (.low .rcx .byte) ∨ ∃ z n, c = .immediate z n)) →
      (Instruction.mk m [d, c]).memoryOperands ≤ 1 := by
    rintro ⟨p, rfl, rfl | ⟨z, n, rfl⟩⟩ <;> exact memoryOperands_pair.2 (by simp [Operand.isMemory])
  constructor
  · rintro ⟨h, hi, hf⟩
    exact ⟨h, hmem h, hi, not_overflows hm, hf⟩
  · rintro ⟨h, -, hi, -, hf⟩
    exact ⟨h, hi, hf⟩

private theorem agrees_implied {m : Mnemonic} {f : Form} (hm : m ∉ Mnemonic.narrowConstants ++ [.imul, .mov])
    (he : encodeOperands m [] = f.implied) (ho : ∃ op, (Instruction.mk m []).operation = .ok op) :
    Agrees ⟨m, []⟩ := by
  unfold Agrees
  rw [he]
  refine iff_of_true (exists_implied f) ⟨ho, by simp [Instruction.memoryOperands], by simp [ImmediatesFit],
    not_overflows hm, hasFields_of_forall (by simp) (by simp)⟩

private theorem agrees_one {m : Mnemonic} {o : Operand} (hm : 1 ∈ m.operandCounts) : Agrees ⟨m, [o]⟩ := by
  cases m with
  | push =>
    unfold Agrees
    have hover : (Instruction.mk .push [o]).OverflowsConstant ↔ HasWideConstant [o] :=
      and_iff_left (.inl (by simp [Mnemonic.narrowConstants]))
    have hmem : (Instruction.mk .push [o]).memoryOperands ≤ 1 := List.countP_le_length
    rw [hover, and_iff_right hmem]
    exact exists_encodePush
  | pop =>
    refine exists_encodePop.trans (plain_iff (i := ⟨.pop, [o]⟩) (not_overflows (by decide)) fun h => ?_)
    obtain ⟨p, rfl, -⟩ := Operation.exists_ofPop.1 h
    exact plain_place
  | inc | dec | neg | not | mul | div | idiv =>
    exact agrees_unary (not_overflows (by decide)) rfl Operation.exists_ofPlace
  | imul =>
    have hover : ¬ (Instruction.mk .imul [o]).OverflowsConstant := by
      simp [Instruction.OverflowsConstant, Mnemonic.narrowConstants]
    exact agrees_unary hover rfl Operation.exists_ofPlace
  | _ => simp [Mnemonic.operandCounts] at hm

private theorem overflowsConstant_mov {d s : Operand} {pair : Pair} (hp : pair.Describes d s) :
    (Instruction.mk .mov [d, s]).OverflowsConstant ↔ d.isMemory = true ∧ HasWideConstant [d, s] := by
  have hmov : (Instruction.mk .mov [d, s]).OverflowsConstant ↔
      HasWideConstant [d, s] ∧ ∃ l, d = .memory l ∧ l.width = .qword := by
    simp [Instruction.OverflowsConstant, Mnemonic.narrowConstants]
  rw [hmov, and_comm]
  refine and_congr_left fun hw => ⟨?_, fun hd => ?_⟩
  · rintro ⟨l, rfl, -⟩
    rfl
  · cases pair with
    | store p v =>
      obtain ⟨rfl, rfl, -⟩ := hp
      exact absurd hw (not_hasWideConstant_of_forall (by cases p <;> simp [Place.operand, Operand.isImmediate]))
    | load v l =>
      obtain ⟨rfl, -⟩ := hp
      cases hd
    | constant p z =>
      obtain ⟨rfl, rfl⟩ := hp
      cases p with
      | register v => cases hd
      | memory l => exact ⟨l, rfl, (hasWideConstant_constant.1 hw).1⟩

private theorem agrees_two {m : Mnemonic} {d s : Operand} (hm : 2 ∈ m.operandCounts)
    (hs : m.isShift = true → ∀ z n, s = .immediate z n → n = 8) : Agrees ⟨m, [d, s]⟩ := by
  cases m with
  | mov =>
    -- of the shapes of a move, only a constant in memory has a field of 32 bits
    have hover : (∃ pair : Pair, pair.Describes d s) →
        (¬ (d.isMemory = true ∧ HasWideConstant [d, s]) ↔ ¬ (Instruction.mk .mov [d, s]).OverflowsConstant) :=
      fun ⟨_, hp⟩ => not_congr (overflowsConstant_mov hp).symm
    refine exists_encodeMove.trans ((and_congr_right fun h => and_congr_right' (and_congr_left' (hover h))).trans ?_)
    rw [exists_describes (f := .move), ← memoryOperands_pair (m := .mov), and_assoc]
    rfl
  | movzx => exact agrees_extension (by decide) rfl Operation.exists_ofZeroExtension
  | movsx => exact agrees_extension (by decide) rfl Operation.exists_ofSignExtension
  | movsxd =>
    refine exists_encodeSignExtension.trans (plain_iff (i := ⟨.movsxd, [d, s]⟩) (not_overflows (by decide)) fun h => ?_)
    obtain ⟨v, p, rfl, rfl, -⟩ := Operation.exists_ofDwordSignExtension.1 h
    exact plain_register_place
  | lea =>
    refine exists_encodeLoadAddress.trans (plain_iff (i := ⟨.lea, [d, s]⟩) (not_overflows (by decide)) fun h => ?_)
    obtain ⟨v, l, rfl, rfl, -⟩ := Operation.exists_ofLoadAddress.1 h
    exact plain_register_place (p := .memory l)
  | xchg =>
    unfold Agrees
    rw [memoryOperands_pair]
    refine exists_encodeExchange.trans (and_congr_right fun h => and_congr_right' ?_)
    obtain ⟨p, q, rfl, rfl, -⟩ := Operation.exists_ofExchange.1 h
    have hi : ImmediatesFit [p.operand, q.operand] :=
      immediatesFit_of_forall (by cases p <;> cases q <;> simp [Place.operand, Operand.isImmediate])
    exact ⟨fun hf => ⟨hi, not_overflows (by decide), hf⟩, fun hf => hf.2.2⟩
  | cmove | cmovne | bsf | bsr =>
    exact agrees_registerSource (not_overflows (by decide)) rfl Operation.exists_ofRegisterPair
  | imul =>
    have hover : ¬ (Instruction.mk .imul [d, s]).OverflowsConstant := by
      simp [Instruction.OverflowsConstant, Mnemonic.narrowConstants]
    exact agrees_registerSource hover rfl Operation.exists_ofMultiplyInto
  | add | adc | sub | sbb | cmp | and | or | xor => exact exists_encodeArithmetic.trans (narrow_iff (by decide))
  | test => exact exists_encodeTest.trans (narrow_iff (by decide))
  | shl | shr | sar | rol | ror => exact agrees_shift (by decide) (hs rfl) rfl rfl
  | paddd =>
    refine exists_encodePackedAdd.trans (plain_iff (i := ⟨.paddd, [d, s]⟩) (not_overflows (by decide)) fun h => ?_)
    obtain ⟨x, y, rfl, rfl⟩ := Operation.exists_ofPackedAdd.1 h
    exact ⟨memoryOperands_pair.2 (by simp [Operand.isMemory]), immediatesFit_of_forall (by simp [Operand.isImmediate])⟩
  | _ => simp [Mnemonic.operandCounts] at hm

private theorem agrees_multiply {d s f : Operand} : Agrees ⟨.imul, [d, s, f]⟩ := by
  have hover : (Instruction.mk .imul [d, s, f]).OverflowsConstant ↔ HasWideConstant [d, s, f] :=
    and_iff_left (.inr (.inl ⟨rfl, rfl⟩))
  have hmem : (∃ op, Operation.ofMultiplyByConstant d s f = .ok op) →
      (Instruction.mk .imul [d, s, f]).memoryOperands ≤ 1 := by
    intro h
    obtain ⟨v, p, z, rfl, -, rfl, -, rfl⟩ := Operation.exists_ofMultiplyByConstant.1 h
    cases p <;> simp [Instruction.memoryOperands, Place.operand, Operand.isMemory, List.countP_cons]
  unfold Agrees
  rw [hover]
  refine exists_encodeMultiply.trans ⟨?_, ?_⟩
  · rintro ⟨h, hf⟩
    exact ⟨h, hmem h, hf⟩
  · rintro ⟨h, -, hf⟩
    exact ⟨h, hf⟩

private theorem agrees_of_wellFormed {i : Instruction} (hi : i.WellFormed) : Agrees i := by
  obtain ⟨m, operands⟩ := i
  have hc := hi.count
  match operands, hi, hc with
  | [], _, hc =>
    cases m with
    | cqo | cdq | nop => exact agrees_implied (by decide) rfl ⟨_, rfl⟩
    | _ => simp [Mnemonic.operandCounts] at hc
  | [o], _, hc => exact agrees_one hc
  | [d, s], hi, hc => exact agrees_two hc hi.count_bits
  | [d, s, f], _, hc =>
    cases m with
    | imul => exact agrees_multiply
    | _ => simp [Mnemonic.operandCounts] at hc
  | d :: s :: f :: g :: rest, _, hc => cases m <;> simp [Mnemonic.operandCounts] at hc

end MachineCode

theorem Instruction.exists_code_iff {i : Instruction} (hi : i.WellFormed) :
    (∃ c, i.code = .ok c) ↔ (i.check = .ok () ∧ ∃ op, i.operation = .ok op) ∧ ¬ i.OverflowsConstant ∧
      HasFields i.operands := by
  have hagree := MachineCode.agrees_of_wellFormed hi
  simp only [Instruction.code, mapError_eq_ok, Instruction.check_eq_ok, hi.count, true_and]
  by_cases hv : i.usesVector = true → i.mnemonic.isPacked = true
  · have hcond : ¬ (i.usesVector && !i.mnemonic.isPacked) = true := by simpa using hv
    rw [if_neg hcond, and_iff_right hv]
    exact hagree.trans ⟨fun ⟨ho, hm, hf, h⟩ => ⟨⟨⟨hm, hf⟩, ho⟩, h⟩, fun ⟨⟨⟨hm, hf⟩, ho⟩, h⟩ => ⟨ho, hm, hf, h⟩⟩
  · have hcond : (i.usesVector && !i.mnemonic.isPacked) = true := by simpa using hv
    simp only [hcond, if_true, hv, false_and, iff_false]
    simp

/-- Whether an instruction that was read is refused does not depend on the machine, and it has machine code exactly when
it is not refused and the fields have room for its operands. -/
theorem Instruction.encodes_iff_not_refused {text : List Char} {i : Instruction} (h : Assembly.parse text = .ok i) :
    (∀ m m' : Machine, m.Refuses i ↔ m'.Refuses i) ∧
      ∀ m : Machine, (∃ bytes, i.encode = .ok bytes) ↔
        ¬ m.Refuses i ∧ ¬ i.OverflowsConstant ∧ ¬ HasFarDisplacement i.operands ∧ ¬ MixesHighByte i.operands := by
  refine ⟨fun m m' => Machine.refuses_congr m m' i, fun m => ?_⟩
  have hcode : (∃ bytes, i.encode = .ok bytes) ↔ ∃ c, i.code = .ok c := by
    simp only [Instruction.encode, map_eq_ok]
    exact ⟨fun ⟨_, c, hc, _⟩ => ⟨c, hc⟩, fun ⟨c, hc⟩ => ⟨c.bytes, c, hc, rfl⟩⟩
  rw [hcode, Instruction.exists_code_iff (Assembly.parse_wellFormed h), Machine.refuses_iff, Classical.not_not]
  rfl

/-- The move of a byte at r8 to ah has no encoding, although no machine refuses it. -/
theorem Instruction.not_encodes_high_byte_beside_r8 :
    ∃ i, Assembly.parse "mov ah, [r8]".toList = .ok i ∧ (¬ ∃ bytes, i.encode = .ok bytes) ∧
      ∀ m : Machine, ¬ m.Refuses i := by
  have h : Assembly.parse "mov ah, [r8]".toList =
      .ok ⟨.mov, [.register (.high .ah), .memory ⟨⟨some .r8, none, .one, 0⟩, .byte⟩]⟩ := rfl
  have hmix : MixesHighByte [.register (.high .ah), .memory ⟨⟨some .r8, none, .one, 0⟩, .byte⟩] :=
    ⟨⟨.ah, by simp⟩, _, List.mem_cons_of_mem _ List.mem_cons_self, .r8, by decide, .inl rfl⟩
  refine ⟨_, h, fun he => ?_, fun m => ?_⟩
  · exact (((Instruction.encodes_iff_not_refused h).2 (.fresh 8)).1 he).2.2.2 hmix
  · rw [Machine.refuses_iff, Classical.not_not]
    exact ⟨rfl, _, rfl⟩

end LongMode

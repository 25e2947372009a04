import LongMode.Proofs.MachineCode.Checks

/-!
# The operation of accepted operands

Where the checks of an instruction accept its operands, they have been turned into places, sources and views, and the
operation is made of these.

* There is one lemma for each way of checking (`of_ofPair` to `of_ofPackedAdd`): it gives the parts of the operation,
  says that the operands are these parts, and which widths they have.
* `Instruction.Means` lists the forms of accepted instructions with their operations, and `means_of_operation` says that
  there are no others.  What is read off an instruction and off its operation is compared by cases on it.
-/

namespace LongMode

namespace Operation

variable {op : Operation} {d s o : Operand}

theorem of_ofPair {f : Place → Source → Operation} (h : ofPair f d s = .ok op) :
    ∃ p src, op = f p src ∧ d = p.operand ∧ s = src.operand ∧ d.bits = s.bits := by
  obtain ⟨⟨p, src⟩, hpair, h⟩ := bind_eq_ok.1 h
  cases h
  exact ⟨p, src, rfl, requirePair_eq_ok.1 hpair⟩

theorem of_ofPlace {f : Place → Operation} (h : ofPlace f o = .ok op) : ∃ p, op = f p ∧ o = p.operand := by
  obtain ⟨p, hplace, rfl⟩ := map_eq_ok.1 h
  exact ⟨p, rfl, requirePlace_eq_ok.1 hplace⟩

theorem of_ofRegisterPair {f : View → Place → Operation} (h : ofRegisterPair f d s = .ok op) :
    ∃ v p, op = f v p ∧ d = .register v ∧ s = p.operand ∧ v.width ∈ Width.wordOrMore ∧ v.width = p.width := by
  obtain ⟨⟨v, p⟩, hpair, h⟩ := bind_eq_ok.1 h
  obtain ⟨hd, hv, hs, hw⟩ := requireRegisterPair_eq_ok.1 hpair
  cases h
  exact ⟨v, p, rfl, hd, hs, hv, hw⟩

theorem of_ofZeroExtension (h : ofZeroExtension d s = .ok op) :
    ∃ v p, op = .extend v p ∧ d = .register v ∧ s = p.operand ∧ v.width ∈ Width.wordOrMore ∧
      isByteOrWord p.width = true ∧ p.width.bits < v.bits := by
  obtain ⟨v, hv, h⟩ := bind_eq_ok.1 h
  obtain ⟨p, hp, h⟩ := bind_eq_ok.1 h
  obtain ⟨hd, hwide⟩ := requireRegister_eq_ok.1 hv
  split at h
  · rename_i hw
    rw [Bool.and_eq_true, decide_eq_true_iff] at hw
    cases h
    exact ⟨v, p, rfl, hd, requirePlace_eq_ok.1 hp, hwide, hw⟩
  · cases h

theorem of_ofSignExtension (h : ofSignExtension d s = .ok op) :
    ∃ v p, op = .extendSigned v p ∧ d = .register v ∧ s = p.operand ∧ v.width ∈ Width.wordOrMore ∧
      isByteOrWord p.width = true ∧ p.width.bits < v.bits := by
  obtain ⟨p, hp, h⟩ := bind_eq_ok.1 h
  obtain ⟨v, hv, h⟩ := bind_eq_ok.1 h
  obtain ⟨hd, hwide⟩ := requireRegister_eq_ok.1 hv
  split at h
  · rename_i hw
    rw [Bool.and_eq_true, decide_eq_true_iff] at hw
    cases h
    exact ⟨v, p, rfl, hd, requirePlace_eq_ok.1 hp, hwide, hw⟩
  · cases h

theorem of_ofDwordSignExtension (h : ofDwordSignExtension d s = .ok op) :
    ∃ v p, op = .extendSigned v p ∧ d = .register v ∧ s = p.operand ∧ v.width = .qword ∧ p.width = .dword := by
  obtain ⟨p, hp, h⟩ := bind_eq_ok.1 h
  obtain ⟨v, hv, h⟩ := bind_eq_ok.1 h
  obtain ⟨hd, hwide⟩ := requireRegister_eq_ok.1 hv
  split at h
  · rename_i hw
    cases h
    exact ⟨v, p, rfl, hd, requirePlace_eq_ok.1 hp, List.mem_singleton.1 hwide, hw⟩
  · cases h

theorem of_ofLoadAddress (h : ofLoadAddress d s = .ok op) :
    ∃ v l, op = .loadAddress v l.address ∧ d = .register v ∧ s = .memory l ∧ v.width ∈ Width.wordOrMore := by
  obtain ⟨v, hv, h⟩ := bind_eq_ok.1 h
  obtain ⟨hd, hwide⟩ := requireRegister_eq_ok.1 hv
  cases s with
  | memory l =>
    cases h
    exact ⟨v, l, rfl, hd, rfl, hwide⟩
  | register v => cases h
  | vector x => cases h
  | immediate z n => cases h

theorem of_ofExchange (h : ofExchange d s = .ok op) :
    ∃ p q, op = .exchange p q ∧ d = p.operand ∧ s = q.operand ∧ p.width = q.width := by
  obtain ⟨q, hq, h⟩ := bind_eq_ok.1 h
  obtain ⟨p, hp, h⟩ := bind_eq_ok.1 h
  obtain ⟨_, hw, h⟩ := bind_eq_ok.1 h
  cases h
  have hd := requirePlace_eq_ok.1 hp
  have hs := requirePlace_eq_ok.1 hq
  rw [requireSameWidth_eq_ok, hd, hs, Place.bits_operand, Place.bits_operand] at hw
  exact ⟨p, q, rfl, hd, hs, Width.eq_of_bits_eq hw⟩

theorem of_ofPush (h : ofPush s = .ok op) : ∃ src, op = .push src ∧ s = src.operand ∧ s.bits = 64 := by
  unfold ofPush at h
  split at h
  · rename_i hw
    obtain ⟨src, hsrc, rfl⟩ := map_eq_ok.1 h
    exact ⟨src, rfl, requireSource_eq_ok.1 hsrc, hw⟩
  · cases h

theorem of_ofPop (h : ofPop d = .ok op) : ∃ p, op = .pop p ∧ d = p.operand ∧ p.width = .qword := by
  obtain ⟨p, hp, h⟩ := bind_eq_ok.1 h
  split at h
  · rename_i hw
    cases h
    exact ⟨p, rfl, requirePlace_eq_ok.1 hp, hw⟩
  · cases h

theorem of_ofMultiplyInto (h : ofMultiplyInto d s = .ok op) :
    ∃ (v : View) (p : Place), op = .multiplyInto v (.register v) p.source ∧ d = .register v ∧ s = p.operand ∧
      v.width ∈ Width.wordOrMore ∧ v.width = p.width := by
  obtain ⟨⟨v, p⟩, hpair, h⟩ := bind_eq_ok.1 h
  obtain ⟨hd, hv, hs, hw⟩ := requireRegisterPair_eq_ok.1 hpair
  cases h
  exact ⟨v, p, rfl, hd, hs, hv, hw⟩

theorem of_ofMultiplyByConstant (h : ofMultiplyByConstant d s o = .ok op) :
    ∃ (v : View) (p : Place) (z : Int), op = .multiplyInto v p.source (.immediate z v.bits) ∧ d = .register v ∧
      s = p.operand ∧ o = .immediate z v.bits ∧ v.width ∈ Width.wordOrMore ∧ v.width = p.width := by
  obtain ⟨v, hv, h⟩ := bind_eq_ok.1 h
  obtain ⟨p, hp, h⟩ := bind_eq_ok.1 h
  obtain ⟨hd, hwide⟩ := requireRegister_eq_ok.1 hv
  have hs := requirePlace_eq_ok.1 hp
  cases o with
  | immediate z n =>
    obtain ⟨_, hw, h⟩ := bind_eq_ok.1 h
    obtain ⟨_, hn, h⟩ := bind_eq_ok.1 h
    cases h
    rw [requireSameWidth_eq_ok, hd, hs, Place.bits_operand] at hw
    rw [requireSameWidth_eq_ok, hd] at hn
    obtain rfl : v.bits = n := hn
    exact ⟨v, p, z, rfl, hd, hs, rfl, hwide, Width.eq_of_bits_eq hw⟩
  | register v => cases h
  | vector x => cases h
  | memory l => cases h

theorem of_ofCount {f : Place → Source → Operation} (h : ofCount f d o = .ok op) :
    ∃ p src, op = f p src ∧ d = p.operand ∧ o = src.operand ∧
      (src = .register (.low .rcx .byte) ∨ ∃ z n, src = .immediate z n) := by
  obtain ⟨p, hp, h⟩ := bind_eq_ok.1 h
  obtain ⟨src, hsrc, h⟩ := bind_eq_ok.1 h
  cases h
  exact ⟨p, src, rfl, requirePlace_eq_ok.1 hp, requireCount_eq_ok.1 hsrc⟩

theorem of_ofPackedAdd (h : ofPackedAdd d s = .ok op) :
    ∃ x y, op = .addPacked x y ∧ d = .vector x ∧ s = .vector y := by
  unfold ofPackedAdd at h
  split at h
  · rename_i x y
    cases h
    exact ⟨x, y, rfl, rfl, rfl⟩
  · cases h

end Operation

/-! ### Instructions with their operations -/

namespace Mnemonic

/-- The mnemonics with a destination and a source of one width. -/
inductive OnPair : Mnemonic → (Place → Source → Operation) → Prop
  | mov : OnPair .mov .move
  | add : OnPair .add (.add false)
  | adc : OnPair .adc (.add true)
  | sub : OnPair .sub (.subtract false)
  | sbb : OnPair .sbb (.subtract true)
  | cmp : OnPair .cmp .compare
  | and : OnPair .and (.bitwise .and)
  | or : OnPair .or (.bitwise .or)
  | xor : OnPair .xor (.bitwise .xor)
  | test : OnPair .test .test

/-- The mnemonics with one operand, a register or a location. -/
inductive OnPlace : Mnemonic → (Place → Operation) → Prop
  | inc : OnPlace .inc .increment
  | dec : OnPlace .dec .decrement
  | neg : OnPlace .neg .negate
  | not : OnPlace .not .complement
  | mul : OnPlace .mul .multiply
  | imul : OnPlace .imul .multiplySigned
  | div : OnPlace .div .divide
  | idiv : OnPlace .idiv .divideSigned

/-- The mnemonics with a register and a register or location of its width. -/
inductive OnRegisterPair : Mnemonic → (View → Place → Operation) → Prop
  | cmove : OnRegisterPair .cmove (.moveIf true)
  | cmovne : OnRegisterPair .cmovne (.moveIf false)
  | bsf : OnRegisterPair .bsf (.scan .forward)
  | bsr : OnRegisterPair .bsr (.scan .reverse)

/-- The mnemonics with a count. -/
inductive OnCount : Mnemonic → (Place → Source → Operation) → Prop
  | shl : OnCount .shl (.shift .left)
  | shr : OnCount .shr (.shift .right)
  | sar : OnCount .sar (.shift .arithmetic)
  | rol : OnCount .rol (.rotate .left)
  | ror : OnCount .ror (.rotate .right)

/-- The mnemonics whose source is narrower than their destination. -/
inductive OnNarrow : Mnemonic → (View → Place → Operation) → Prop
  | movzx : OnNarrow .movzx .extend
  | movsx : OnNarrow .movsx .extendSigned
  | movsxd : OnNarrow .movsxd .extendSigned

end Mnemonic

namespace Instruction

open Mnemonic

/-- The forms of the instructions that are accepted, each with its operation.  Widths are left to the checks. -/
inductive Means : Instruction → Operation → Prop
  | nop : Means ⟨.nop, []⟩ .nothing
  | cqo : Means ⟨.cqo, []⟩ (.spreadSign .qword)
  | cdq : Means ⟨.cdq, []⟩ (.spreadSign .dword)
  | pair {mn : Mnemonic} {f : Place → Source → Operation} (h : OnPair mn f) (p : Place) (s : Source) :
      Means ⟨mn, [p.operand, s.operand]⟩ (f p s)
  | place {mn : Mnemonic} {f : Place → Operation} (h : OnPlace mn f) (p : Place) : Means ⟨mn, [p.operand]⟩ (f p)
  | registerPair {mn : Mnemonic} {f : View → Place → Operation} (h : OnRegisterPair mn f) (v : View) (p : Place) :
      Means ⟨mn, [.register v, p.operand]⟩ (f v p)
  | count {mn : Mnemonic} {f : Place → Source → Operation} (h : OnCount mn f) (p : Place) (c : Source) :
      Means ⟨mn, [p.operand, c.operand]⟩ (f p c)
  | narrow {mn : Mnemonic} {f : View → Place → Operation} (h : OnNarrow mn f) (v : View) (p : Place) :
      Means ⟨mn, [.register v, p.operand]⟩ (f v p)
  | lea (v : View) (l : Location) : Means ⟨.lea, [.register v, .memory l]⟩ (.loadAddress v l.address)
  | xchg (p q : Place) : Means ⟨.xchg, [p.operand, q.operand]⟩ (.exchange p q)
  | push (s : Source) : Means ⟨.push, [s.operand]⟩ (.push s)
  | pop (p : Place) : Means ⟨.pop, [p.operand]⟩ (.pop p)
  | multiplyInto (v : View) (p : Place) :
      Means ⟨.imul, [.register v, p.operand]⟩ (.multiplyInto v (.register v) p.source)
  | multiplyByConstant (v : View) (p : Place) (z : Int) :
      Means ⟨.imul, [.register v, p.operand, .immediate z v.bits]⟩ (.multiplyInto v p.source (.immediate z v.bits))
  | paddd (x y : VectorRegister) : Means ⟨.paddd, [.vector x, .vector y]⟩ (.addPacked x y)

open Operation

variable {mn : Mnemonic} {op : Operation} {d s c o : Operand}

private theorem means_one (h : (Instruction.mk mn [o]).operation = .ok op) : (Instruction.mk mn [o]).Means op := by
  cases mn with
  | push =>
    obtain ⟨src, rfl, rfl, -⟩ := of_ofPush h
    exact .push src
  | pop =>
    obtain ⟨p, rfl, rfl, -⟩ := of_ofPop h
    exact .pop p
  | inc | dec | neg | not | mul | imul | div | idiv =>
    obtain ⟨p, rfl, rfl⟩ := of_ofPlace h
    exact .place (by constructor) p
  | _ => cases h

private theorem means_two (h : (Instruction.mk mn [d, s]).operation = .ok op) :
    (Instruction.mk mn [d, s]).Means op := by
  cases mn with
  | mov | add | adc | sub | sbb | cmp | and | or | xor | test =>
    obtain ⟨p, src, rfl, rfl, rfl, -⟩ := of_ofPair h
    exact .pair (by constructor) p src
  | movzx =>
    obtain ⟨v, p, rfl, rfl, rfl, -⟩ := of_ofZeroExtension h
    exact .narrow .movzx v p
  | movsx =>
    obtain ⟨v, p, rfl, rfl, rfl, -⟩ := of_ofSignExtension h
    exact .narrow .movsx v p
  | movsxd =>
    obtain ⟨v, p, rfl, rfl, rfl, -⟩ := of_ofDwordSignExtension h
    exact .narrow .movsxd v p
  | lea =>
    obtain ⟨v, l, rfl, rfl, rfl, -⟩ := of_ofLoadAddress h
    exact .lea v l
  | xchg =>
    obtain ⟨p, q, rfl, rfl, rfl, -⟩ := of_ofExchange h
    exact .xchg p q
  | cmove | cmovne | bsf | bsr =>
    obtain ⟨v, p, rfl, rfl, rfl, -⟩ := of_ofRegisterPair h
    exact .registerPair (by constructor) v p
  | imul =>
    obtain ⟨v, p, rfl, rfl, rfl, -⟩ := of_ofMultiplyInto h
    exact .multiplyInto v p
  | shl | shr | sar | rol | ror =>
    obtain ⟨p, src, rfl, rfl, rfl, -⟩ := of_ofCount h
    exact .count (by constructor) p src
  | paddd =>
    obtain ⟨x, y, rfl, rfl, rfl⟩ := of_ofPackedAdd h
    exact .paddd x y
  | _ => cases h

private theorem means_three (h : (Instruction.mk mn [d, s, c]).operation = .ok op) :
    (Instruction.mk mn [d, s, c]).Means op := by
  cases mn with
  | imul =>
    obtain ⟨v, p, z, rfl, rfl, rfl, rfl, -⟩ := of_ofMultiplyByConstant h
    exact .multiplyByConstant v p z
  | _ => cases h

/-- An instruction that has an operation is one of these. -/
theorem means_of_operation {i : Instruction} (h : i.operation = .ok op) : i.Means op := by
  obtain ⟨mn, operands⟩ := i
  match operands with
  | [] =>
    cases mn with
    | cqo | cdq | nop =>
      cases h
      constructor
    | _ => cases h
  | [o] => exact means_one h
  | [d, s] => exact means_two h
  | [d, s, c] => exact means_three h
  | _ :: _ :: _ :: _ :: _ => cases mn <;> cases h

/-- A mnemonic with one operand takes any register and any location. -/
theorem operation_place {f : Place → Operation} (hf : mn.OnPlace f) (p : Place) :
    (Instruction.mk mn [p.operand]).operation = .ok (f p) := by
  have hplace : requirePlace p.operand = .ok p := requirePlace_eq_ok.2 rfl
  have hchoice : (Instruction.mk mn [p.operand]).operation = ofPlace f p.operand := by cases hf <;> rfl
  rw [hchoice, ofPlace, hplace, map_ok]

end Instruction

end LongMode

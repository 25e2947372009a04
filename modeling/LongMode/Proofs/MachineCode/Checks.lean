import LongMode.Execution.Operation
import LongMode.MachineCode.Encode
import LongMode.Proofs.Outcome

/-!
# Operand checks

The engine and the encoder look at operands on their own and in their own order.  The lemmas here say of each check,
on both sides, which operands pass it.

* `Pair.Describes` relates the shape that the encoder finds to the operands (`requirePair_eq_ok`).
* `exists_describes`: such a shape is there exactly when the engine accepts the two operands and not both are memory.
-/

namespace LongMode

def Place.operand : Place → Operand
  | register v => .register v
  | memory l => .memory l

def Source.operand : Source → Operand
  | register v => .register v
  | immediate z n => .immediate z n
  | memory l => .memory l

theorem Place.bits_operand (p : Place) : p.operand.bits = p.width.bits := by
  cases p <;> rfl

theorem Place.operand_inj {p q : Place} : p.operand = q.operand ↔ p = q := by
  cases p <;> cases q <;> simp [operand]

theorem Place.operand_source (p : Place) : p.source.operand = p.operand := by
  cases p <;> rfl

theorem Width.bits_pos (w : Width) : 0 < w.bits := by cases w <;> decide

theorem Width.bits_inj {v w : Width} : v.bits = w.bits ↔ v = w := by
  cases v <;> cases w <;> decide

theorem Width.eq_of_bits_eq {v w : Width} (h : v.bits = w.bits) : v = w := bits_inj.1 h

namespace MachineCode

/-! ### The checks of the encoder -/

theorem requirePlace_eq_ok {o : Operand} {p : Place} : requirePlace o = .ok p ↔ o = p.operand := by
  cases o <;> cases p <;> simp [requirePlace, Place.operand]

theorem requireRegister_eq_ok {widths : List Width} {o : Operand} {v : View} :
    requireRegister widths o = .ok v ↔ o = .register v ∧ v.width ∈ widths := by
  cases o with
  | register u =>
    by_cases hu : u.width ∈ widths
    · simp only [requireRegister, List.contains_iff_mem, hu, if_true, Except.ok.injEq, Operand.register.injEq]
      exact ⟨fun h => ⟨h, h ▸ hu⟩, And.left⟩
    · simp only [requireRegister, List.contains_iff_mem, hu, if_false, Operand.register.injEq]
      exact ⟨by simp, fun h => absurd (h.1 ▸ h.2) hu⟩
  | _ => simp [requireRegister]

theorem requireSameWidth_eq_ok {first second : Operand} {u : Unit} :
    requireSameWidth first second = .ok u ↔ first.bits = second.bits := by
  by_cases h : first.bits = second.bits <;> simp [requireSameWidth, h]

theorem immediateValue_eq_ok {w : Width} {z value : Int} :
    immediateValue w z = .ok value ↔ fits w.bits z = true ∧ signed w.bits z = value := by
  by_cases h : fits w.bits z = true <;> simp [immediateValue, h]

/-- The operands that a shape stands for. -/
def Pair.Describes : Pair → Operand → Operand → Prop
  | store p v, d, s => d = p.operand ∧ s = .register v ∧ p.width = v.width
  | load v l, d, s => d = .register v ∧ s = .memory l ∧ v.width = l.width
  | constant p z, d, s => d = p.operand ∧ s = .immediate z p.width.bits

theorem requirePair_eq_ok {d s : Operand} {pair : Pair} : requirePair d s = .ok pair ↔ pair.Describes d s := by
  unfold requirePair
  simp only [bind_eq_ok, requirePlace_eq_ok]
  constructor
  · rintro ⟨p, rfl, h⟩
    split at h
    · cases h
    · rename_i hm
      obtain ⟨_, hw, h⟩ := bind_eq_ok.1 h
      rw [requireSameWidth_eq_ok, Place.bits_operand] at hw
      cases s with
      | register v =>
        cases h
        exact ⟨rfl, rfl, Width.eq_of_bits_eq hw⟩
      | memory l =>
        cases p with
        | register v =>
          cases h
          exact ⟨rfl, rfl, Width.eq_of_bits_eq hw⟩
        | memory l' => cases h
      | immediate z n =>
        obtain rfl : p.width.bits = n := hw
        cases p <;> cases h <;> exact ⟨rfl, rfl⟩
      | vector x => cases p <;> cases h
  · intro h
    cases pair with
    | store p v =>
      obtain ⟨rfl, rfl, hw⟩ := h
      have hs : requireSameWidth p.operand (.register v) = .ok () :=
        requireSameWidth_eq_ok.2 (by rw [Place.bits_operand, hw]; rfl)
      refine ⟨p, rfl, ?_⟩
      rw [hs]
      cases p <;> rfl
    | load v l =>
      obtain ⟨rfl, rfl, hw⟩ := h
      have hs : requireSameWidth (.register v) (.memory l) = .ok () :=
        requireSameWidth_eq_ok.2 (by simp only [Operand.bits, View.bits, hw])
      refine ⟨.register v, rfl, ?_⟩
      rw [hs]
      rfl
    | constant p z =>
      obtain ⟨rfl, rfl⟩ := h
      have hs : requireSameWidth p.operand (.immediate z p.width.bits) = .ok () :=
        requireSameWidth_eq_ok.2 (by rw [Place.bits_operand]; rfl)
      refine ⟨p, rfl, ?_⟩
      rw [hs]
      cases p <;> rfl

end MachineCode

namespace Operation

/-! ### The checks of the engine -/

theorem requirePlace_eq_ok {o : Operand} {p : Place} : requirePlace o = .ok p ↔ o = p.operand := by
  cases o <;> cases p <;> simp [requirePlace, Place.operand]

theorem requireSource_eq_ok {o : Operand} {s : Source} : requireSource o = .ok s ↔ o = s.operand := by
  cases o <;> cases s <;> simp [requireSource, Source.operand]

theorem requireRegister_eq_ok {widths : List Width} {o : Operand} {v : View} :
    requireRegister widths o = .ok v ↔ o = .register v ∧ v.width ∈ widths := by
  cases o with
  | register u =>
    by_cases hu : u.width ∈ widths
    · simp only [requireRegister, List.contains_iff_mem, hu, if_true, Except.ok.injEq, Operand.register.injEq]
      exact ⟨fun h => ⟨h, h ▸ hu⟩, And.left⟩
    · simp only [requireRegister, List.contains_iff_mem, hu, if_false, Operand.register.injEq]
      exact ⟨by simp, fun h => absurd (h.1 ▸ h.2) hu⟩
  | _ => simp [requireRegister]

theorem requireSameWidth_eq_ok {first second : Operand} {u : Unit} :
    requireSameWidth first second = .ok u ↔ first.bits = second.bits := by
  by_cases h : first.bits = second.bits <;> simp [requireSameWidth, h]

theorem requirePair_eq_ok {d s : Operand} {p : Place} {src : Source} :
    requirePair d s = .ok (p, src) ↔ d = p.operand ∧ s = src.operand ∧ d.bits = s.bits := by
  simp only [requirePair, bind_eq_ok, requirePlace_eq_ok, requireSameWidth_eq_ok, requireSource_eq_ok, pure,
    Except.pure, Except.ok.injEq, Prod.mk.injEq]
  constructor
  · rintro ⟨p', rfl, -, hw, src', rfl, rfl, rfl⟩
    exact ⟨rfl, rfl, hw⟩
  · rintro ⟨rfl, rfl, hw⟩
    exact ⟨p, rfl, (), hw, src, rfl, rfl, rfl⟩

theorem requireRegisterPair_eq_ok {d s : Operand} {v : View} {p : Place} :
    requireRegisterPair d s = .ok (v, p) ↔
      d = .register v ∧ v.width ∈ Width.wordOrMore ∧ s = p.operand ∧ v.width = p.width := by
  simp only [requireRegisterPair, bind_eq_ok, requireRegister_eq_ok, requirePlace_eq_ok, requireSameWidth_eq_ok, pure,
    Except.pure, Except.ok.injEq, Prod.mk.injEq]
  constructor
  · rintro ⟨v', ⟨rfl, hv⟩, p', rfl, -, hw, rfl, rfl⟩
    rw [Place.bits_operand] at hw
    exact ⟨rfl, hv, rfl, Width.eq_of_bits_eq hw⟩
  · rintro ⟨rfl, hv, rfl, hw⟩
    refine ⟨v, ⟨rfl, hv⟩, p, rfl, (), ?_, rfl, rfl⟩
    rw [Place.bits_operand, ← hw]
    rfl

theorem requireCount_eq_ok {o : Operand} {s : Source} :
    requireCount o = .ok s ↔
      o = s.operand ∧ (s = .register (.low .rcx .byte) ∨ ∃ z n, s = .immediate z n) := by
  cases o with
  | register v =>
    by_cases hv : v = .low .rcx .byte
    · cases s <;> simp [requireCount, hv, Source.operand, eq_comm]
    · cases s <;> simp [requireCount, hv, Source.operand]
      rintro rfl rfl
      exact hv rfl
  | _ => cases s <;> simp [requireCount, Source.operand]

theorem exists_ofPair {f : Place → Source → Operation} {d s : Operand} :
    (∃ op, ofPair f d s = .ok op) ↔ ∃ p src, requirePair d s = .ok (p, src) := by
  simp only [ofPair, bind_eq_ok]
  exact ⟨fun ⟨_, ⟨p, src⟩, h, _⟩ => ⟨p, src, h⟩, fun ⟨p, src, h⟩ => ⟨f p src, (p, src), h, rfl⟩⟩

theorem exists_ofRegisterPair {f : View → Place → Operation} {d s : Operand} :
    (∃ op, ofRegisterPair f d s = .ok op) ↔ ∃ v p, requireRegisterPair d s = .ok (v, p) := by
  simp only [ofRegisterPair, bind_eq_ok]
  exact ⟨fun ⟨_, ⟨v, p⟩, h, _⟩ => ⟨v, p, h⟩, fun ⟨v, p, h⟩ => ⟨f v p, (v, p), h, rfl⟩⟩

/-- A register that is wider than a byte or a word in the second operand. -/
def Extends (d s : Operand) : Prop :=
  ∃ (v : View) (p : Place), d = .register v ∧ s = p.operand ∧ v.width ∈ Width.wordOrMore ∧
    (p.width = .byte ∨ p.width = .word) ∧ p.width.bits < v.bits

private theorem isByteOrWord_iff {w : Width} : isByteOrWord w = true ↔ w = .byte ∨ w = .word := by
  simp [isByteOrWord]

theorem exists_ofZeroExtension {d s : Operand} : (∃ op, ofZeroExtension d s = .ok op) ↔ Extends d s := by
  simp only [ofZeroExtension, exists_bind_eq_ok, requireRegister_eq_ok, requirePlace_eq_ok]
  constructor
  · rintro ⟨v, ⟨rfl, hv⟩, p, rfl, op, h⟩
    split at h
    · rename_i hw
      rw [Bool.and_eq_true, isByteOrWord_iff, decide_eq_true_iff] at hw
      exact ⟨v, p, rfl, rfl, hv, hw⟩
    · cases h
  · rintro ⟨v, p, rfl, rfl, hv, hw⟩
    rw [← isByteOrWord_iff, ← decide_eq_true_iff (p := p.width.bits < v.bits), ← Bool.and_eq_true] at hw
    exact ⟨v, ⟨rfl, hv⟩, p, rfl, _, if_pos hw⟩

theorem exists_ofSignExtension {d s : Operand} : (∃ op, ofSignExtension d s = .ok op) ↔ Extends d s := by
  simp only [ofSignExtension, exists_bind_eq_ok, requireRegister_eq_ok, requirePlace_eq_ok]
  constructor
  · rintro ⟨p, rfl, v, ⟨rfl, hv⟩, op, h⟩
    split at h
    · rename_i hw
      rw [Bool.and_eq_true, isByteOrWord_iff, decide_eq_true_iff] at hw
      exact ⟨v, p, rfl, rfl, hv, hw⟩
    · cases h
  · rintro ⟨v, p, rfl, rfl, hv, hw⟩
    rw [← isByteOrWord_iff, ← decide_eq_true_iff (p := p.width.bits < v.bits), ← Bool.and_eq_true] at hw
    exact ⟨p, rfl, v, ⟨rfl, hv⟩, _, if_pos hw⟩

theorem exists_ofDwordSignExtension {d s : Operand} :
    (∃ op, ofDwordSignExtension d s = .ok op) ↔
      ∃ (v : View) (p : Place), d = .register v ∧ s = p.operand ∧ v.width = .qword ∧ p.width = .dword := by
  simp only [ofDwordSignExtension, exists_bind_eq_ok, requireRegister_eq_ok, requirePlace_eq_ok, List.mem_singleton]
  constructor
  · rintro ⟨p, rfl, v, ⟨rfl, hv⟩, op, h⟩
    split at h
    · rename_i hw
      exact ⟨v, p, rfl, rfl, hv, hw⟩
    · cases h
  · rintro ⟨v, p, rfl, rfl, hv, hw⟩
    exact ⟨p, rfl, v, ⟨rfl, hv⟩, _, if_pos hw⟩

theorem exists_ofLoadAddress {d s : Operand} :
    (∃ op, ofLoadAddress d s = .ok op) ↔ ∃ v l, d = .register v ∧ s = .memory l ∧ v.width ∈ Width.wordOrMore := by
  simp only [ofLoadAddress, exists_bind_eq_ok, requireRegister_eq_ok]
  constructor
  · rintro ⟨v, ⟨rfl, hv⟩, op, h⟩
    cases s with
    | memory l => exact ⟨v, l, rfl, rfl, hv⟩
    | _ => cases h
  · rintro ⟨v, l, rfl, rfl, hv⟩
    exact ⟨v, ⟨rfl, hv⟩, _, rfl⟩

theorem exists_ofExchange {first second : Operand} :
    (∃ op, ofExchange first second = .ok op) ↔
      ∃ p q : Place, first = p.operand ∧ second = q.operand ∧ p.width = q.width := by
  simp only [ofExchange, exists_bind_eq_ok, requirePlace_eq_ok, requireSameWidth_eq_ok]
  constructor
  · rintro ⟨q, rfl, p, rfl, -, hw, -⟩
    rw [Place.bits_operand, Place.bits_operand] at hw
    exact ⟨p, q, rfl, rfl, Width.eq_of_bits_eq hw⟩
  · rintro ⟨p, q, rfl, rfl, hw⟩
    exact ⟨q, rfl, p, rfl, (), by rw [Place.bits_operand, Place.bits_operand, hw], _, rfl⟩

theorem exists_ofPush {s : Operand} : (∃ op, ofPush s = .ok op) ↔ s.bits = 64 := by
  unfold ofPush
  split
  · rename_i h
    refine iff_of_true ?_ h
    cases s with
    | vector x => cases h
    | _ => exact ⟨_, rfl⟩
  · rename_i h
    simp [h]

theorem exists_ofPop {d : Operand} : (∃ op, ofPop d = .ok op) ↔ ∃ p : Place, d = p.operand ∧ p.width = .qword := by
  simp only [ofPop, exists_bind_eq_ok, requirePlace_eq_ok]
  exact exists_congr fun p => and_congr_right' exists_ite_ok

theorem exists_ofPlace {f : Place → Operation} {o : Operand} :
    (∃ op, ofPlace f o = .ok op) ↔ ∃ p : Place, o = p.operand := by
  simp only [ofPlace, map_eq_ok, requirePlace_eq_ok]
  exact ⟨fun ⟨_, p, h, _⟩ => ⟨p, h⟩, fun ⟨p, h⟩ => ⟨f p, p, h, rfl⟩⟩

theorem exists_ofMultiplyInto {d s : Operand} :
    (∃ op, ofMultiplyInto d s = .ok op) ↔ ∃ v p, requireRegisterPair d s = .ok (v, p) := by
  simp only [ofMultiplyInto, exists_bind_eq_ok]
  exact ⟨fun ⟨⟨v, p⟩, h, _⟩ => ⟨v, p, h⟩, fun ⟨v, p, h⟩ => ⟨(v, p), h, _, rfl⟩⟩

theorem exists_ofMultiplyByConstant {d s f : Operand} :
    (∃ op, ofMultiplyByConstant d s f = .ok op) ↔
      ∃ (v : View) (p : Place) (z : Int), d = .register v ∧ v.width ∈ Width.wordOrMore ∧ s = p.operand ∧
        v.width = p.width ∧ f = .immediate z v.bits := by
  simp only [ofMultiplyByConstant, exists_bind_eq_ok, requireRegister_eq_ok, requirePlace_eq_ok]
  constructor
  · rintro ⟨v, ⟨rfl, hv⟩, p, rfl, op, h⟩
    cases f with
    | immediate z n =>
      obtain ⟨_, hs, h⟩ := bind_eq_ok.1 h
      obtain ⟨_, hf, -⟩ := bind_eq_ok.1 h
      rw [requireSameWidth_eq_ok, Place.bits_operand] at hs
      rw [requireSameWidth_eq_ok] at hf
      exact ⟨v, p, z, rfl, hv, rfl, Width.eq_of_bits_eq hs, congrArg (Operand.immediate z) hf.symm⟩
    | _ => cases h
  · rintro ⟨v, p, z, rfl, hv, rfl, hw, rfl⟩
    refine ⟨v, ⟨rfl, hv⟩, p, rfl, _, bind_eq_ok.2 ⟨(), requireSameWidth_eq_ok.2 ?_, bind_eq_ok.2
      ⟨(), requireSameWidth_eq_ok.2 rfl, rfl⟩⟩⟩
    rw [Place.bits_operand, ← hw]
    rfl

theorem exists_ofCount {f : Place → Source → Operation} {d c : Operand} :
    (∃ op, ofCount f d c = .ok op) ↔
      ∃ p : Place, d = p.operand ∧ (c = .register (.low .rcx .byte) ∨ ∃ z n, c = .immediate z n) := by
  simp only [ofCount, exists_bind_eq_ok, requirePlace_eq_ok, requireCount_eq_ok]
  refine exists_congr fun p => and_congr_right' ?_
  constructor
  · rintro ⟨s, ⟨rfl, rfl | ⟨z, n, rfl⟩⟩, -⟩
    · exact .inl rfl
    · exact .inr ⟨z, n, rfl⟩
  · rintro (rfl | ⟨z, n, rfl⟩)
    · exact ⟨.register (.low .rcx .byte), ⟨rfl, .inl rfl⟩, _, rfl⟩
    · exact ⟨.immediate z n, ⟨rfl, .inr ⟨z, n, rfl⟩⟩, _, rfl⟩

theorem exists_ofPackedAdd {d s : Operand} :
    (∃ op, ofPackedAdd d s = .ok op) ↔ ∃ x y, d = .vector x ∧ s = .vector y := by
  cases d <;> cases s <;> simp [ofPackedAdd]

end Operation

/-! ### Both sides -/

namespace MachineCode

theorem exists_describes {f : Place → Source → Operation} {d s : Operand} :
    (∃ pair : Pair, pair.Describes d s) ↔
      (∃ op, Operation.ofPair f d s = .ok op) ∧ ¬ (d.isMemory = true ∧ s.isMemory = true) := by
  rw [Operation.exists_ofPair]
  constructor
  · rintro ⟨pair, h⟩
    cases pair with
    | store p v =>
      obtain ⟨rfl, rfl, hw⟩ := h
      refine ⟨⟨p, .register v, Operation.requirePair_eq_ok.2 ⟨rfl, rfl, ?_⟩⟩, by simp [Operand.isMemory]⟩
      rw [Place.bits_operand, hw]
      rfl
    | load v l =>
      obtain ⟨rfl, rfl, hw⟩ := h
      refine ⟨⟨.register v, .memory l, Operation.requirePair_eq_ok.2 ⟨rfl, rfl, ?_⟩⟩, by simp [Operand.isMemory]⟩
      simp only [Operand.bits, View.bits, hw]
    | constant p z =>
      obtain ⟨rfl, rfl⟩ := h
      refine ⟨⟨p, .immediate z _, Operation.requirePair_eq_ok.2 ⟨rfl, rfl, ?_⟩⟩, by simp [Operand.isMemory]⟩
      rw [Place.bits_operand]
      rfl
  · rintro ⟨⟨p, src, h⟩, hm⟩
    obtain ⟨rfl, rfl, hw⟩ := Operation.requirePair_eq_ok.1 h
    rw [Place.bits_operand] at hw
    cases src with
    | register v => exact ⟨.store p v, rfl, rfl, Width.eq_of_bits_eq hw⟩
    | immediate z n => exact ⟨.constant p z, rfl, by rw [Source.operand, hw]; rfl⟩
    | memory l =>
      cases p with
      | register v => exact ⟨.load v l, rfl, rfl, Width.eq_of_bits_eq hw⟩
      | memory l' => exact absurd ⟨rfl, rfl⟩ hm

end MachineCode

end LongMode

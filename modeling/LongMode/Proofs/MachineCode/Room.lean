import LongMode.Proofs.Arith.Signed
import LongMode.Proofs.Execution.Refusal
import LongMode.Proofs.MachineCode.Checks

/-!
# Room in the fields

An instruction whose operands are right may still have no machine code, for one of three reasons:

* a field for a constant has at most 32 bits, except in a move to a register (`HasWideConstant`);
* a field for a displacement has at most 32 bits (`HasFarDisplacement`);
* no REX byte can stand beside ah, ch, dh or bh (`MixesHighByte`).

`exists_withModRm` says that the last two are all that a form with a ModRM byte asks of its operands, and
`exists_wide` that a field of 32 bits asks no more of a constant than the first.
-/

namespace LongMode

/-- A number that a signed field of 32 bits can hold. -/
def IsDword (z : Int) : Prop := -2 ^ 31 ≤ z ∧ z < 2 ^ 31

/-- The cells whose numbers have a fourth bit. -/
def upperCells : List Cell := [.r8, .r9, .r10, .r11, .r12, .r13, .r14, .r15]

/-- The bytes that share their numbers with ah, ch, dh and bh. -/
def rexBytes : List View := [.low .rsp .byte, .low .rbp .byte, .low .rsi .byte, .low .rdi .byte]

/-- Operands that can only be encoded with a REX byte. -/
def Operand.NeedsRex : Operand → Prop
  | register v => v.width = .qword ∨ v.cell ∈ upperCells ∨ v ∈ rexBytes
  | memory l => ∃ c ∈ upperCells, l.address.base = some c ∨ l.address.index = some c
  | _ => False

/-- A constant of 64 bits that is no sign-extended number of 32 bits. -/
def HasWideConstant (operands : List Operand) : Prop := ∃ z, .immediate z 64 ∈ operands ∧ ¬ IsDword (signed 64 z)

def HasFarDisplacement (operands : List Operand) : Prop :=
  ∃ l, .memory l ∈ operands ∧ ¬ IsDword l.address.displacement

/-- One of ah, ch, dh and bh beside an operand that needs a REX byte. -/
def MixesHighByte (operands : List Operand) : Prop :=
  (∃ b, .register (.high b) ∈ operands) ∧ ∃ o ∈ operands, o.NeedsRex

/-- The fields for displacements and register numbers hold what the operands need. -/
def HasFields (operands : List Operand) : Prop := ¬ HasFarDisplacement operands ∧ ¬ MixesHighByte operands

/-- Immediates need none of these fields. -/
theorem hasFields_congr {xs ys : List Operand} (h : ∀ o : Operand, o.isImmediate = false → (o ∈ xs ↔ o ∈ ys)) :
    HasFields xs ↔ HasFields ys := by
  have hr : ∀ o : Operand, o.NeedsRex → o.isImmediate = false := by
    intro o ho
    cases o with
    | immediate z n => exact ho.elim
    | _ => rfl
  have hfar : HasFarDisplacement xs ↔ HasFarDisplacement ys :=
    exists_congr fun l => and_congr_left' (h _ rfl)
  have hhigh : (∃ b, .register (.high b) ∈ xs) ↔ ∃ b, .register (.high b) ∈ ys :=
    exists_congr fun b => h _ rfl
  have hrex : (∃ o ∈ xs, o.NeedsRex) ↔ ∃ o ∈ ys, o.NeedsRex :=
    exists_congr fun o => and_congr_left fun ho => h o (hr o ho)
  unfold HasFields MixesHighByte
  rw [hfar, hhigh, hrex]

namespace MachineCode

/-! ### Fields -/

theorem fitsSigned_dword {z : Int} : fitsSigned 32 z = true ↔ IsDword z := by
  simp [fitsSigned, IsDword]

private theorem cell_isExtended_iff {c : Cell} : c.isExtended = true ↔ c ∈ upperCells := by
  cases c <;> decide

private theorem isExtended_iff {v : View} : v.isExtended = true ↔ v.cell ∈ upperCells := cell_isExtended_iff

private theorem needsRex_iff {v : View} : v.needsRex = true ↔ v ∈ rexBytes := by
  rcases v with ⟨c, w⟩ | b
  · cases w <;> cases c <;> decide
  · cases b <;> decide

private theorem any_isExtended {c : Option Cell} : c.any Cell.isExtended = true ↔ ∃ d ∈ upperCells, c = some d := by
  cases c <;> simp [cell_isExtended_iff]

private theorem exists_rexFor {rex : Rex} {views : List View} :
    (∃ r, rexFor rex views = .ok r) ↔
      ¬ ((∃ v ∈ views, v.isHighByte = true) ∧
        (rex.w = true ∨ rex.r = true ∨ rex.x = true ∨ rex.b = true ∨ ∃ v ∈ views, v.needsRex = true)) := by
  unfold rexFor
  split
  · rename_i hr
    simp only [Bool.or_eq_true, List.any_eq_true, or_assoc] at hr
    split
    · rename_i hv
      simp only [List.any_eq_true] at hv
      simp [hv, hr]
    · rename_i hv
      simp only [List.any_eq_true] at hv
      simp [hv]
  · rename_i hr
    simp only [Bool.or_eq_true, List.any_eq_true, or_assoc] at hr
    simp [hr]

private theorem exists_addressModRm {reg : Fin 8} {a : Address} :
    (∃ m, addressModRm reg a = .ok m) ↔ IsDword a.displacement := by
  rw [← fitsSigned_dword]
  unfold addressModRm
  split
  · simp_all
  · rename_i h
    simp only [Bool.not_eq_true', Bool.not_eq_false] at h
    refine iff_of_true ?_ h
    split
    · exact ⟨_, rfl⟩
    · dsimp only
      split <;> exact ⟨_, rfl⟩

def RegOperand.operands : RegOperand → List Operand
  | register v => [.register v]
  | digit _ => []

private theorem exists_modRm {reg : RegOperand} {p : Place} :
    (∃ m, modRm reg.field (.ofPlace p) = .ok m) ↔ ¬ HasFarDisplacement (p.operand :: reg.operands) := by
  have hr : ∀ l, Operand.memory l ∉ reg.operands := by
    intro l
    cases reg <;> simp [RegOperand.operands]
  cases p with
  | register v => exact iff_of_true ⟨_, rfl⟩ (by simp [HasFarDisplacement, Place.operand, hr])
  | memory l =>
    simp only [RmOperand.ofPlace, modRm, exists_addressModRm, HasFarDisplacement, Place.operand, List.mem_cons, hr,
      Operand.memory.injEq, or_false, exists_eq_left, Classical.not_not]

private theorem mem_views {reg : RegOperand} {p : Place} {v : View} :
    v ∈ (RmOperand.ofPlace p).views ++ reg.views ↔ .register v ∈ p.operand :: reg.operands := by
  cases p <;> cases reg <;>
    simp [RmOperand.views, RmOperand.ofPlace, RegOperand.views, Place.operand, RegOperand.operands]

private theorem exists_isHighByte {views : List View} :
    (∃ v ∈ views, v.isHighByte = true) ↔ ∃ b, .high b ∈ views := by
  constructor
  · rintro ⟨v, hv, hh⟩
    cases v with
    | low c w => cases hh
    | high b => exact ⟨b, hv⟩
  · rintro ⟨b, hb⟩
    exact ⟨.high b, hb, rfl⟩

/-- What the operands ask of REX, with the bit W for 64-bit registers. -/
private theorem needsRex_operands {reg : RegOperand} {p : Place} :
    ((∃ v, .register v ∈ p.operand :: reg.operands ∧ v.width = .qword) ∨ reg.isExtended = true ∨
        (RmOperand.ofPlace p).extensions.1 = true ∨ (RmOperand.ofPlace p).extensions.2 = true ∨
        ∃ v ∈ (RmOperand.ofPlace p).views ++ reg.views, v.needsRex = true) ↔
      ∃ o ∈ p.operand :: reg.operands, o.NeedsRex := by
  simp only [mem_views]
  cases p with
  | register u =>
    cases reg <;>
      simp [RmOperand.ofPlace, RmOperand.extensions, RegOperand.isExtended, Place.operand, RegOperand.operands,
        Operand.NeedsRex, isExtended_iff, needsRex_iff, or_assoc, or_left_comm, or_comm]
  | memory l =>
    cases reg <;>
      simp [RmOperand.ofPlace, RmOperand.extensions, RegOperand.isExtended, Place.operand, RegOperand.operands,
        Operand.NeedsRex, isExtended_iff, needsRex_iff, any_isExtended, exists_or, and_or_left, or_assoc,
        or_left_comm, or_comm]

private theorem exists_withModRm_split {f : Form} {reg : RegOperand} {p : Place} :
    (∃ c, f.withModRm reg (.ofPlace p) = .ok c) ↔
      (∃ r, rexFor ⟨selectsQword f.width f.qwordByDefault, reg.isExtended, (RmOperand.ofPlace p).extensions.1,
          (RmOperand.ofPlace p).extensions.2⟩ ((RmOperand.ofPlace p).views ++ reg.views) = .ok r) ∧
        ∃ m, modRm reg.field (.ofPlace p) = .ok m := by
  simp only [Form.withModRm, bind_eq_ok]
  constructor
  · rintro ⟨_, r, hr, m, hm, -⟩
    exact ⟨⟨r, hr⟩, m, hm⟩
  · rintro ⟨⟨r, hr⟩, m, hm⟩
    exact ⟨_, r, hr, m, hm, rfl⟩

/-- A form with a ModRM byte can be filled if REX stands only where it must. -/
theorem exists_withModRm {f : Form} {reg : RegOperand} {p : Place} {operands : List Operand}
    (ho : ∀ o : Operand, o.isImmediate = false → (o ∈ operands ↔ o ∈ p.operand :: reg.operands))
    (hw : ∀ b, .register (.high b) ∈ operands →
      (selectsQword f.width f.qwordByDefault = true ↔ ∃ v, .register v ∈ operands ∧ v.width = .qword)) :
    (∃ c, f.withModRm reg (.ofPlace p) = .ok c) ↔ HasFields operands := by
  have hw' : ∀ b, .register (.high b) ∈ p.operand :: reg.operands →
      (selectsQword f.width f.qwordByDefault = true ↔
        ∃ v, .register v ∈ p.operand :: reg.operands ∧ v.width = .qword) := by
    intro b hb
    rw [hw b ((ho _ rfl).2 hb)]
    exact exists_congr fun v => and_congr_left' (ho _ rfl)
  rw [hasFields_congr ho, exists_withModRm_split, exists_modRm, exists_rexFor, and_comm, exists_isHighByte]
  simp only [mem_views (v := .high _)]
  refine and_congr_right' (not_congr (and_congr_right fun hb => ?_))
  obtain ⟨b, hb⟩ := hb
  rw [hw' b hb]
  exact needsRex_operands

/-- The operands of one width do not differ in what they ask of REX. -/
private theorem exists_withModRm_of_width {f : Form} {reg : RegOperand} {p : Place} {operands : List Operand}
    (ho : ∀ o : Operand, o.isImmediate = false → (o ∈ operands ↔ o ∈ p.operand :: reg.operands))
    (hw : ∀ v, .register v ∈ operands → v.width = f.width) :
    (∃ c, f.withModRm reg (.ofPlace p) = .ok c) ↔ HasFields operands := by
  refine exists_withModRm ho fun b hb => ?_
  have hf : f.width = .byte := (hw _ hb).symm
  refine iff_of_false (by simp [selectsQword, hf]) ?_
  rintro ⟨v, hv, hq⟩
  rw [hw v hv, hf] at hq
  cases hq

theorem hasFields_of_registers {operands : List Operand} (hm : ∀ l, .memory l ∉ operands)
    (hh : ∀ b, .register (.high b) ∈ operands → ∀ o ∈ operands, ¬ o.NeedsRex) : HasFields operands :=
  ⟨fun ⟨l, hl, _⟩ => hm l hl, fun ⟨⟨b, hb⟩, o, ho, hn⟩ => hh b hb o ho hn⟩

theorem hasFields_of_forall {operands : List Operand} (hm : ∀ l, .memory l ∉ operands)
    (hh : ∀ v, .register v ∈ operands → v.isHighByte = false) : HasFields operands :=
  hasFields_of_registers hm fun b hb => absurd (hh _ hb) (by simp [View.isHighByte])

private theorem not_needsRex_high (b : HighByte) : ¬ (Operand.register (.high b)).NeedsRex := by
  cases b <;> simp [Operand.NeedsRex, View.width, View.cell, HighByte.cell, upperCells, rexBytes]

/-- A register and an immediate. -/
theorem hasFields_register (v : View) (z : Int) (n : Nat) : HasFields [.register v, .immediate z n] := by
  refine hasFields_of_registers (by simp) fun b hb o ho => ?_
  obtain rfl : v = .high b := by simpa [eq_comm] using hb
  rcases List.mem_cons.1 ho with rfl | ho
  · exact not_needsRex_high b
  · obtain rfl := List.mem_singleton.1 ho
    exact id

theorem exists_withOpcodeRegister {f : Form} {v : View} (hv : v.isHighByte = true → f.width = .byte) :
    ∃ c, f.withOpcodeRegister v = .ok c := by
  have hr : ∃ r, rexFor ⟨selectsQword f.width f.qwordByDefault, false, false, v.isExtended⟩ [v] = .ok r := by
    rw [exists_rexFor]
    rintro ⟨⟨u, hu, hh⟩, hn⟩
    obtain rfl := List.mem_singleton.1 hu
    cases u with
    | low c w => cases hh
    | high b =>
      have he : (View.high b).isExtended = false := by cases b <;> rfl
      simp [selectsQword, hv hh, he, View.needsRex] at hn
  obtain ⟨r, hr⟩ := hr
  exact ⟨_, bind_eq_ok.2 ⟨r, hr, rfl⟩⟩

theorem exists_implied (f : Form) : ∃ c, f.implied = .ok c := by
  obtain ⟨r, hr⟩ : ∃ r, rexFor ⟨selectsQword f.width f.qwordByDefault, false, false, false⟩ [] = .ok r :=
    exists_rexFor.2 (by simp)
  exact ⟨_, bind_eq_ok.2 ⟨r, hr, rfl⟩⟩

private theorem exists_wideImmediate {w : Width} {z : Int} :
    (∃ bytes, wideImmediate w (signed w.bits z) = .ok bytes) ↔ (w = .qword → IsDword (signed 64 z)) := by
  have hl := @le_signed w.bits (by cases w <;> decide) z
  have hu := @signed_lt w.bits (by cases w <;> decide) z
  unfold wideImmediate
  rw [← fitsSigned_dword]
  by_cases hw : w = .word
  · subst hw
    simp
  · rw [if_neg hw, exists_ite_ok]
    refine ⟨fun h hq => by subst hq; exact h, fun h => ?_⟩
    cases w with
    | qword => exact h rfl
    | _ =>
      -- below 64 bits every reading fits into the field
      rw [fitsSigned_iff]
      simp only [Width.bits, Width.bytes] at hl hu ⊢
      omega

/-! ### Forms -/

theorem register_operand {p : Place} {v : View} (h : p.operand = .register v) : p = .register v := by
  cases p with
  | register u => cases h; rfl
  | memory l => cases h

theorem immediatesFit_of_forall {operands : List Operand} (h : ∀ o ∈ operands, o.isImmediate = false) :
    ImmediatesFit operands :=
  fun _ _ hm => absurd (h _ hm) (by simp [Operand.isImmediate])

theorem not_hasWideConstant_of_forall {operands : List Operand} (h : ∀ o ∈ operands, o.isImmediate = false) :
    ¬ HasWideConstant operands :=
  fun ⟨_, hm, _⟩ => absurd (h _ hm) (by simp [Operand.isImmediate])

theorem immediatesFit_constant {p : Place} {z : Int} {n : Nat} :
    ImmediatesFit [p.operand, .immediate z n] ↔ fits n z = true := by
  cases p <;> simp [ImmediatesFit, Place.operand]

theorem hasWideConstant_constant {p : Place} {z : Int} :
    HasWideConstant [p.operand, .immediate z p.width.bits] ↔ p.width = .qword ∧ ¬ IsDword (signed 64 z) := by
  have hq : p.width.bits = 64 ↔ p.width = .qword := Width.bits_inj (w := .qword)
  have hm : ∀ y, Operand.immediate y 64 ∈ [p.operand, .immediate z p.width.bits] ↔ y = z ∧ p.width = .qword := by
    intro y
    rw [← hq, @eq_comm _ p.width.bits]
    cases p <;> simp [Place.operand]
  simp [HasWideConstant, hm, and_assoc]

/-- A register in the reg field and an operand of its width beside it. -/
theorem exists_registerField {f : Form} {v : View} {p : Place} {operands : List Operand}
    (hf : f.width = v.width) (hw : ∀ u, p = .register u → u.width = v.width)
    (ho : ∀ o : Operand, o.isImmediate = false → (o ∈ operands ↔ o = p.operand ∨ o = .register v)) :
    (∃ c, f.withModRm (.register v) (.ofPlace p) = .ok c) ↔ HasFields operands := by
  refine exists_withModRm_of_width (fun o hi => by simp [ho o hi, RegOperand.operands]) fun u hu => ?_
  rcases (ho _ rfl).1 hu with hu | hu
  · rw [hf, hw u (register_operand hu.symm)]
  · cases hu
    exact hf.symm

theorem exists_store {f : Form} {p : Place} {v : View} (hw : p.width = v.width) (hf : f.width = p.width) :
    (∃ c, f.withModRm (.register v) (.ofPlace p) = .ok c) ↔ HasFields [p.operand, .register v] :=
  exists_registerField (hf.trans hw) (by rintro u rfl; exact hw) (by simp)

theorem exists_load {f : Form} {v : View} {l : Location} (hf : f.width = v.width) :
    (∃ c, f.withModRm (.register v) (.address l.address) = .ok c) ↔ HasFields [.register v, .memory l] :=
  exists_registerField (p := .memory l) hf (by simp) (by simp [Place.operand, or_comm])

theorem exists_digit {f : Form} {p : Place} {digit : Fin 8} (hf : f.width = p.width) :
    (∃ c, f.withModRm (.digit digit) (.ofPlace p) = .ok c) ↔ HasFields [p.operand] := by
  refine exists_withModRm_of_width (fun _ _ => by simp [RegOperand.operands]) fun u hu => ?_
  rw [hf, register_operand (List.mem_singleton.1 hu).symm]
  rfl

theorem exists_constant {f : Form} {p : Place} {digit : Fin 8} {z : Int} {n : Nat} (hf : f.width = p.width) :
    (∃ c, f.withModRm (.digit digit) (.ofPlace p) = .ok c) ↔ HasFields [p.operand, .immediate z n] := by
  refine exists_withModRm_of_width (fun o ho => ?_) fun u hu => ?_
  · simp only [RegOperand.operands, List.mem_cons, List.not_mem_nil, or_false]
    exact ⟨fun h => h.resolve_right fun h => by simp [h, Operand.isImmediate] at ho, .inl⟩
  · have hu : p.operand = .register u := by simpa [eq_comm] using hu
    rw [hf, register_operand hu]
    rfl

/-- Short forms of the accumulator have no field for it. -/
theorem exists_accumulator {f g : Form} {p : Place} {digit : Fin 8} {z : Int} {n : Nat}
    (hg : g.width = p.width) :
    (∃ c, (if p.isAccumulator = true then f.implied else g.withModRm (.digit digit) (.ofPlace p)) = .ok c) ↔
      HasFields [p.operand, .immediate z n] := by
  split
  · rename_i ha
    cases p with
    | register v => exact iff_of_true (exists_implied f) (hasFields_register v z n)
    | memory l => cases ha
  · exact exists_constant hg

theorem exists_wide {k : List UInt8 → Except EncodeCause Code} {w : Width} {z : Int} {P : Prop}
    (h : ∀ bytes, (∃ c, k bytes = .ok c) ↔ P) :
    (∃ c, (wideImmediate w (signed w.bits z) >>= k) = .ok c) ↔ (w = .qword → IsDword (signed 64 z)) ∧ P := by
  rw [exists_bind_eq_ok, ← exists_wideImmediate]
  simp only [h, exists_and_right]

theorem exists_immediateValue {k : Int → Except EncodeCause Code} {w : Width} {z : Int} :
    (∃ c, (immediateValue w z >>= k) = .ok c) ↔ fits w.bits z = true ∧ ∃ c, k (signed w.bits z) = .ok c := by
  rw [exists_bind_eq_ok]
  simp only [immediateValue_eq_ok, and_assoc, exists_and_left, exists_eq_left']

theorem isDword_of_byte {w : Width} {z : Int} (h : fitsSigned 8 (signed w.bits z) = true) (hw : w = .qword) :
    IsDword (signed 64 z) := by
  subst hw
  obtain ⟨hl, hu⟩ : -2 ^ (8 - 1) ≤ signed 64 z ∧ signed 64 z < 2 ^ (8 - 1) := fitsSigned_iff.1 h
  unfold IsDword
  omega

end MachineCode

end LongMode

import LongMode.Proofs.Arith.Product
import LongMode.Proofs.Execution.Faults
import LongMode.Proofs.Execution.Sequence

/-!
# Divisions undo multiplications

A multiplication leaves its product in the accumulators, where a division by the same operand finds it.

* `Machine.LeavesHalves`: a high and a low half have been written to the accumulators and nothing else has changed but
  flags, so a division divides the two (`dividend_eq_halves`).
* `leavesHalves_multiply` and `leavesHalves_divide`: a multiplication by one operand leaves the halves of the product,
  and a division the remainder and the quotient, if that fits.
* `execute_divide_of_quotient_eq_none`: a division whose quotient does not fit faults with an overflow.
* `divide_restores`: so a division after a multiplication by an operand that both leave alone does not fault, gives
  back the low accumulator and leaves nothing in the high one.
-/

namespace LongMode

/-- The view of the high half of a product, and of a remainder. -/
def Width.upper : Width → View
  | .byte => .high .ah
  | w => .low .rdx w

namespace Machine

open Transaction

/-- The accumulators hold the two halves, and but for flags the machine is the same elsewhere. -/
structure LeavesHalves (m : Machine) (w : Width) (high low : Nat) (m' : Machine) : Prop where
  upper_eq : m'.readView w.upper = high
  lower_eq : m'.readView (.low .rax w) = low
  changesOnly : m.ChangesOnly { views := w.accumulators, flags := Flag.all } m'

variable {m : Machine} {w : Width} {p : Place} {x high low : Nat}

/-! ### Halves in the accumulators -/

/-- For bytes too, what is divided is the high accumulator in front of the low one. -/
theorem dividend_eq_halves (m : Machine) (w : Width) :
    m.dividend w = m.readView w.upper * 2 ^ w.bits + m.readView (.low .rax w) := by
  cases w with
  | byte =>
    show m.cell .rax / 2 ^ 0 % 2 ^ 16 = m.cell .rax / 2 ^ 8 % 2 ^ 8 * 2 ^ 8 + m.cell .rax / 2 ^ 0 % 2 ^ 8
    omega
  | word | dword | qword => rfl

private theorem readView_writeHalves (m : Machine) (hhigh : high < 2 ^ w.bits) (hlow : low < 2 ^ w.bits) :
    ((start m).writeHalves w high low).result.readView w.upper = high ∧
      ((start m).writeHalves w high low).result.readView (.low .rax w) = low := by
  obtain ⟨m', hm'⟩ : ∃ m', ((start m).writeHalves w high low).result = m' := ⟨_, rfl⟩
  have hwritten := hm'
  rw [hm']
  by_cases hw : w = .byte
  · subst hw
    have hhigh : high < 2 ^ 8 := hhigh
    have hlow : low < 2 ^ 8 := hlow
    rw [writeHalves, if_pos rfl, result_writeView, result_start] at hwritten
    -- both bytes are written at once, and a number has only one pair of them
    have hword : m'.dividend .byte = high * 2 ^ 8 + low := by
      rw [← hwritten, dividend, readView_writeView]
      exact truncate_of_lt (show high * 2 ^ 8 + low < 2 ^ 16 by omega)
    have hlower : m'.readView (.low .rax .byte) < 2 ^ 8 := View.read_lt _ _
    have hhalves := m'.dividend_eq_halves .byte
    have hbits : Width.byte.bits = 8 := rfl
    rw [hword, hbits] at hhalves
    exact ⟨by omega, by omega⟩
  · have hupper : w.upper = .low .rdx w := by cases w <;> first | rfl | exact absurd rfl hw
    have hcell : (View.low .rdx w).cell ≠ (View.low .rax w).cell := nofun
    rw [writeHalves, if_neg hw, result_writeView, result_writeView, result_start, lowHalf, highHalf] at hwritten
    rw [← hwritten, hupper, readView_writeView, readView_writeView_of_ne hcell, readView_writeView]
    exact ⟨truncate_of_lt hhigh, truncate_of_lt hlow⟩

/-- The flags and the counter are set besides. -/
private theorem leavesHalves_writeHalves (m : Machine) (flags : Flags) (hhigh : high < 2 ^ w.bits)
    (hlow : low < 2 ^ w.bits) :
    m.LeavesHalves w high low { ((start m).writeHalves w high low).result with flags }.advance := by
  obtain ⟨hupper, hlower⟩ := m.readView_writeHalves hhigh hlow
  have hstart : m.ChangesOnly { views := w.accumulators, flags := Flag.all } (start m).result := by
    rw [result_start]
    exact .refl m _
  have hhalves := hstart.halves (List.Subset.refl _) high low
  exact ⟨hupper, hlower, hhalves.bit_eq, hhalves.vector_eq, fun f hf => absurd f.mem_all hf, hhalves.byte_eq⟩

/-! ### One operand -/

variable {mn mn' : Mnemonic} {f f' : Place → Operation} {g : Nat → Nat → Nat → Product}
  {g' : Nat → Nat → Nat → Division}

private theorem execute_place (hf : mn.OnPlace f) (m : Machine) (p : Place) : m.execute ⟨mn, [p.operand]⟩ =
    ((((f p).run (start m)).map result).mapError (Stop.fault ⟨mn, [p.operand]⟩)).map advance := by
  have hcount : 1 ∈ mn.operandCounts := by cases hf <;> decide
  have hcheck : (Instruction.mk mn [p.operand]).check = .ok () := by
    cases p with
    | register v | memory l => exact Instruction.check_one hcount rfl nofun
  exact execute_of_operation hcheck (Instruction.operation_place hf p) m

theorem leavesHalves_multiply (hf : mn.OnPlace f) (hrun : ∀ t, (f p).run t = t.multiplyHalves p g)
    (hm : m.memory.size = m.capacity) (hread : m.readPlace p = .ok x) {r : Product}
    (hr : g p.width.bits (m.readView (.low .rax p.width)) x = r) (hhigh : r.high < 2 ^ p.width.bits)
    (hlow : r.low < 2 ^ p.width.bits) :
    ∃ m', m.execute ⟨mn, [p.operand]⟩ = .ok m' ∧ m.LeavesHalves p.width r.high r.low m' := by
  have hproduct : (f p).run (start m) = .ok (((start m).writeHalves p.width r.high r.low).setFlags r.flags) := by
    rw [hrun, multiplyHalves, readPlace_start hm, hread, mapError_ok, ok_bind, ← hr]
    rfl
  have hexecute := execute_place hf m p
  rw [hproduct, map_ok, result_setFlags, mapError_ok, map_ok] at hexecute
  exact ⟨_, hexecute, m.leavesHalves_writeHalves _ hhigh hlow⟩

theorem leavesHalves_divide (hf : mn.OnPlace f) (hrun : ∀ t, (f p).run t = t.divideHalves p g')
    (hm : m.memory.size = m.capacity) (hread : m.readPlace p = .ok x) (hx : x ≠ 0) {q r : Nat}
    (hr : g' p.width.bits (m.dividend p.width) x = ⟨some q, r⟩) (hhigh : r < 2 ^ p.width.bits)
    (hlow : q < 2 ^ p.width.bits) :
    ∃ m', m.execute ⟨mn, [p.operand]⟩ = .ok m' ∧ m.LeavesHalves p.width r q m' := by
  have hquotient : (f p).run (start m) = .ok ((start m).writeHalves p.width r q) := by
    rw [hrun, divideHalves, readPlace_start hm, hread, mapError_ok, ok_bind, if_neg hx]
    dsimp only
    rw [readHalves_start, hr]
    rfl
  have hexecute := execute_place hf m p
  rw [hquotient, map_ok, mapError_ok, map_ok] at hexecute
  exact ⟨_, hexecute, m.leavesHalves_writeHalves _ hhigh hlow⟩

theorem execute_divide_of_quotient_eq_none (hf : mn.OnPlace f) (hrun : ∀ t, (f p).run t = t.divideHalves p g')
    (hm : m.memory.size = m.capacity) (hread : m.readPlace p = .ok x) (hx : x ≠ 0)
    (hr : (g' p.width.bits (m.dividend p.width) x).quotient = none) :
    m.execute ⟨mn, [p.operand]⟩ = .error (.divideOverflow ⟨mn, [p.operand]⟩) := by
  have hstop : (f p).run (start m) = .error .divideOverflow := by
    rw [hrun, divideHalves, readPlace_start hm, hread, mapError_ok, ok_bind, if_neg hx]
    dsimp only
    rw [readHalves_start, hr]
  rw [execute_place hf m p, hstop]
  rfl

/-! ### One after the other -/

/-- The place keeps its value, so what it is multiplied by is divided by the same. -/
private theorem executeAll_multiply_divide (hf : mn.OnPlace f) (hrun : ∀ t, (f p).run t = t.multiplyHalves p g)
    (hf' : mn'.OnPlace f') (hrun' : ∀ t, (f' p).run t = t.divideHalves p g') (hm : m.valid = true)
    (hread : m.readPlace p = .ok x) (hx : x ≠ 0) (hp : ∀ v ∈ p.width.accumulators, v.cell ∉ p.cells) {a : Nat}
    (ha : m.readView (.low .rax p.width) = a) {r : Product} (hr : g p.width.bits a x = r)
    (hhigh : r.high < 2 ^ p.width.bits) (hlow : r.low < 2 ^ p.width.bits)
    (hback : g' p.width.bits (r.high * 2 ^ p.width.bits + r.low) x = ⟨some a, 0⟩) :
    ∃ m', m.executeAll [⟨mn, [p.operand]⟩, ⟨mn', [p.operand]⟩] = .ok m' ∧
      m'.readView (.low .rax p.width) = a ∧ m'.readView p.width.upper = 0 ∧
      m.ChangesOnly { views := p.width.accumulators, flags := Flag.all } m' := by
  obtain ⟨m₁, hfirst, hproduct⟩ :=
    leavesHalves_multiply hf hrun (valid_iff.1 hm).size_eq hread (ha.symm ▸ hr) hhigh hlow
  obtain ⟨hvalid, hcapacity⟩ := valid_execute hm hfirst
  have hkept : m₁.readPlace p = .ok x := hproduct.changesOnly.readPlace_eq hm hvalid hcapacity rfl hp hread
  have hdividend : m₁.dividend p.width = r.high * 2 ^ p.width.bits + r.low := by
    rw [dividend_eq_halves, hproduct.upper_eq, hproduct.lower_eq]
  obtain ⟨m', hsecond, hquotient⟩ := leavesHalves_divide hf' hrun' (valid_iff.1 hvalid).size_eq hkept hx
    (hdividend.symm ▸ hback) (Nat.two_pow_pos _) (ha ▸ View.read_lt _ _)
  refine ⟨m', ?_, hquotient.lower_eq, hquotient.upper_eq, hproduct.changesOnly.trans hquotient.changesOnly⟩
  rw [executeAll_cons_ok hfirst, executeAll_cons_ok hsecond, executeAll]

/-- A multiplication by a place and a division by it, of numbers and of signed numbers, give the low accumulator back
and leave nothing in the high one, where the place holds a number that is not zero and neither lies in an accumulator
nor is addressed by one. -/
theorem divide_restores (hm : m.valid = true) (hread : m.readPlace p = .ok x) (hx : x ≠ 0)
    (hp : ∀ v ∈ p.width.accumulators, v.cell ∉ p.cells) :
    (∃ m', m.executeAll [⟨.mul, [p.operand]⟩, ⟨.div, [p.operand]⟩] = .ok m' ∧
        m'.readView (.low .rax p.width) = m.readView (.low .rax p.width) ∧ m'.readView p.width.upper = 0 ∧
        m.ChangesOnly { views := p.width.accumulators, flags := Flag.all } m') ∧
      ∃ m', m.executeAll [⟨.imul, [p.operand]⟩, ⟨.idiv, [p.operand]⟩] = .ok m' ∧
        m'.readView (.low .rax p.width) = m.readView (.low .rax p.width) ∧ m'.readView p.width.upper = 0 ∧
        m.ChangesOnly { views := p.width.accumulators, flags := Flag.all } m' := by
  obtain ⟨a, ha⟩ : ∃ a, m.readView (.low .rax p.width) = a := ⟨_, rfl⟩
  have hw : 0 < p.width.bits := p.width.bits_pos
  have ha' : a < 2 ^ p.width.bits := ha ▸ View.read_lt _ _
  have hx' : x < 2 ^ p.width.bits := readPlace_lt hread
  rw [ha]
  constructor
  · have hreports := Word.reports_multiply hw ha' hx'
    exact executeAll_multiply_divide .mul (fun _ => rfl) .div (fun _ => rfl) hm hread hx hp ha rfl hreports.high_lt
      hreports.low_lt (Word.divide_multiply ha' hx)
  · have hreports := Word.reports_multiplySigned hw a x
    exact executeAll_multiply_divide .imul (fun _ => rfl) .idiv (fun _ => rfl) hm hread hx hp ha rfl
      hreports.high_lt hreports.low_lt (Word.divideSigned_multiplySigned hw ha' hx hx')

/-- The least signed byte squared, in a high byte of a register that is not an accumulator for bytes. -/
theorem divide_restores_least_byte : ∃ m : Machine, m.valid = true ∧ m.readPlace (.register (.high .dh)) = .ok 128 ∧
    128 ≠ 0 ∧ (∀ v ∈ Width.byte.accumulators, v.cell ∉ (Place.register (.high .dh)).cells) ∧
    m.readView (.low .rax .byte) = 128 ∧
    (∃ m', m.executeAll [⟨.mul, [.register (.high .dh)]⟩, ⟨.div, [.register (.high .dh)]⟩] = .ok m' ∧
      m'.readView (.low .rax .byte) = 128 ∧ m'.readView (.high .ah) = 0) ∧
    ∃ m', m.executeAll [⟨.imul, [.register (.high .dh)]⟩, ⟨.idiv, [.register (.high .dh)]⟩] = .ok m' ∧
      m'.readView (.low .rax .byte) = 128 ∧ m'.readView (.high .ah) = 0 := by
  obtain ⟨m, hm⟩ : ∃ m : Machine,
      m = ((fresh 16).writeView (.low .rax .byte) 128).writeView (.high .dh) 128 := ⟨_, rfl⟩
  have hvalid : m.valid = true := by
    rw [hm]
    decide
  have hread : m.readPlace (.register (.high .dh)) = .ok 128 := by rw [hm]; rfl
  have haccumulator : m.readView (.low .rax .byte) = 128 := by rw [hm]; rfl
  have hcells : ∀ v ∈ Width.byte.accumulators, v.cell ∉ (Place.register (.high .dh)).cells := by decide
  obtain ⟨⟨m₁, hunsigned, hlow₁, hhigh₁, -⟩, m₂, hsigned, hlow₂, hhigh₂, -⟩ :=
    divide_restores hvalid hread (by decide) hcells
  exact ⟨m, hvalid, hread, by decide, hcells, haccumulator,
    ⟨m₁, hunsigned, hlow₁.trans haccumulator, hhigh₁⟩, m₂, hsigned, hlow₂.trans haccumulator, hhigh₂⟩

end Machine

end LongMode

import LongMode.Proofs.Arith.Shift
import LongMode.Proofs.Execution.Accesses
import LongMode.Proofs.Execution.Choice
import LongMode.Proofs.Execution.Refusal

/-!
# Shifts by nothing

A shift or a rotation whose reduced count is zero defines no flag and writes nothing, but for a 32-bit register, which
is written with its own value.

* `Machine.Idles`: only the counter has moved on, and the upper half of a 32-bit register has been cleared.
* `idles_of_execute`: so it is after a shift or a rotation by nothing, which executes where its destination is in
  memory's range.
* `Shift.iterates`: a shift by a count that is not zero is as many shifts by one bit.
-/

namespace LongMode

/-- Nothing has changed but the counter, and the upper half of the destination's cell if that is a 32-bit register. -/
structure Machine.Idles (m : Machine) (destination : Operand) (m' : Machine) : Prop where
  cell_eq : ∀ c, m'.cell c = if destination = .register (.low c .dword) then m.cell c % 2 ^ 32 else m.cell c
  vectors_eq : m'.vectors = m.vectors
  flags_eq : m'.flags = m.flags
  memory_eq : m'.memory = m.memory
  capacity_eq : m'.capacity = m.capacity
  rip_eq : m'.rip = (m.rip + 1) % 2 ^ 64

/-- Shifts and rotations all move bits, each in its own way. -/
theorem Operation.run_eq_moveBits {mn : Mnemonic} (hs : mn.isShift = true) {d c : Operand} {op : Operation}
    (h : (Instruction.mk mn [d, c]).operation = .ok op) :
    ∃ p src f, d = p.operand ∧ c = src.operand ∧ ∀ t, op.run t = t.moveBits p src f := by
  cases mn with
  | shl | shr | sar | rol | ror =>
    obtain ⟨p, src, rfl, hd, hc, -⟩ := of_ofCount h
    exact ⟨p, src, _, hd, hc, fun t => rfl⟩
  | _ => cases hs

namespace Machine

open Transaction

variable {m : Machine} {mn : Mnemonic} {d c : Operand}

/-- A cell of which 32 bits are written with what they hold is reduced to them. -/
private theorem write_read_dword (c : Cell) (cell : Nat) :
    (View.low c .dword).write cell ((View.low c .dword).read cell) = cell % 2 ^ 32 := by
  have hread : (View.low c .dword).read cell = cell % 2 ^ 32 := by
    show cell / 2 ^ 0 % 2 ^ 32 = _
    rw [Nat.pow_zero, Nat.div_one]
  rw [hread]
  exact truncate_of_lt (Nat.mod_lt cell (Nat.two_pow_pos 32))

private theorem idles_advance (hd : ∀ c, d ≠ .register (.low c .dword)) : m.Idles d m.advance :=
  ⟨fun c => (if_neg (hd c)).symm, rfl, rfl, rfl, rfl, rfl⟩

private theorem idles_writeView (m : Machine) (c : Cell) :
    m.Idles (.register (.low c .dword))
      (m.writeView (.low c .dword) (m.readView (.low c .dword))).advance := by
  refine ⟨fun c' => ?_, rfl, rfl, rfl, rfl, rfl⟩
  have hcell := cell_writeView m (.low c .dword) (m.readView (.low c .dword)) c'
  by_cases hc : c = c'
  · subst hc
    rw [if_pos rfl]
    exact (hcell.trans (if_pos rfl)).trans (write_read_dword c (m.cell c))
  · have hne : ¬ (Operand.register (.low c .dword) = .register (.low c' .dword)) := by
      intro h
      cases h
      exact hc rfl
    rw [if_neg hne]
    exact hcell.trans (if_neg hc)

/-- What is left to do once the operands are read. -/
private theorem idles_of_moveBits {p : Place} {src : Source} {f : Nat → Nat → Nat → Flagged} {a n : Nat}
    (hread : (start m).readPlace p = .ok a) (hcount : (start m).read src = .ok n)
    (hn : maskedCount p.width.bits n = 0) :
    ∃ t, (start m).moveBits p src f = .ok t ∧ m.Idles p.operand t.result.advance := by
  rw [moveBits, hread, ok_bind, hcount, ok_bind, if_pos hn]
  cases p with
  | memory l => exact ⟨start m, rfl, idles_advance fun c => nofun⟩
  | register v =>
    obtain rfl : m.readView v = a := Except.ok.inj hread
    dsimp only
    by_cases hv : v.width = .dword
    · cases v with
      | high b => cases hv
      | low c w =>
        obtain rfl : w = .dword := hv
        refine ⟨_, if_pos rfl, ?_⟩
        rw [result_writeView, result_start]
        exact m.idles_writeView c
    · refine ⟨_, if_neg hv, idles_advance fun c h => hv ?_⟩
      cases h
      rfl

/-- A shift or a rotation by nothing executes where its destination is in range, and then it idles. -/
theorem idles_of_execute (hs : mn.isShift = true) (hi : ¬ m.Refuses ⟨mn, [d, c]⟩) (hc : c.CountsNothing m d.bits) :
    ((∃ m', m.execute ⟨mn, [d, c]⟩ = .ok m') ↔ m.Reaches (d.spans m)) ∧
      ∀ m', m.execute ⟨mn, [d, c]⟩ = .ok m' → m.Idles d m' := by
  obtain ⟨hcheck, op, hop⟩ := not_refuses_iff.1 hi
  obtain ⟨p, src, f, rfl, rfl, hrun⟩ := Operation.run_eq_moveBits hs hop
  obtain ⟨n, hvalue, hn⟩ := hc
  have hcount : (start m).read src = .ok n := by
    cases src with
    | register v => exact congrArg Except.ok (Option.some.inj hvalue)
    | immediate z k => exact congrArg Except.ok (Option.some.inj hvalue)
    | memory l => cases hvalue
  have hguard := (start m).guarded_readPlace p
  rw [execute_of_operation hcheck hop, hrun]
  cases hread : (start m).readPlace p with
  | error e =>
    have hout : ¬ m.Reaches (p.operand.spans m) := by
      rw [hread] at hguard
      cases e with
      | outOfBounds a => exact hguard
      | divideByZero => cases hguard
      | divideOverflow => cases hguard
    have hstop : (start m).moveBits p src f = .error e := by
      rw [moveBits, hread]
      rfl
    rw [hstop]
    exact ⟨⟨nofun, fun h => absurd h hout⟩, nofun⟩
  | ok a =>
    rw [hread] at hguard
    rw [Place.bits_operand] at hn
    obtain ⟨t, ht, hidles⟩ := idles_of_moveBits (f := f) hread hcount hn
    rw [ht]
    refine ⟨⟨fun _ => hguard, fun _ => ⟨_, rfl⟩⟩, fun m' h => ?_⟩
    obtain rfl : t.result.advance = m' := Except.ok.inj h
    exact hidles

end Machine

namespace Shift

/-- A shift of a word by a count of which `n` is left, and the execution of a shift or rotation by a count of which
nothing is left. -/
theorem iterates (k : Shift) {w value count n : Nat} (hw : 0 < w) (h : value < 2 ^ w)
    (hn : n = count % if w = 64 then 64 else 32) :
    (n = 0 → k.apply w value count = ⟨value, FlagEffect.none⟩) ∧
      (n ≠ 0 → k.Reports w value n (k.apply w value count)) ∧
      ∀ (m : Machine) (mn : Mnemonic) (d c : Operand) (z : Nat), mn.isShift = true → ¬ m.Refuses ⟨mn, [d, c]⟩ →
        c.value? m = some z → z % (if d.bits = 64 then 64 else 32) = 0 →
        ((∃ m', m.execute ⟨mn, [d, c]⟩ = .ok m') ↔ m.Reaches (d.spans m)) ∧
          ∀ m', m.execute ⟨mn, [d, c]⟩ = .ok m' → m.Idles d m' := by
  obtain rfl : maskedCount w count = n := hn.symm
  refine ⟨fun hn => if_pos hn, k.reports_apply hw h, ?_⟩
  intro m mn d c z hs hi hvalue hz
  exact Machine.idles_of_execute hs hi ⟨z, hvalue, hz⟩

/-- A byte shifted by its width, as the count 40 says, and a 32-bit register shifted by 32, which is nothing. -/
theorem iterates_by_width : left.Reports 8 0x81 8 (left.apply 8 0x81 40) ∧
    ∃ m', ((Machine.fresh 16).writeView (.low .rax .qword) 0x700000001).execute
        ⟨.shl, [.register (.low .rax .dword), .immediate 32 8]⟩ = .ok m' ∧
      m'.cell .rax = 1 ∧ m'.flags = Flags.clear := by
  obtain ⟨-, hshift, hnothing⟩ := @iterates left 8 0x81 40 8 (by decide) (by decide) rfl
  have hi : ¬ ((Machine.fresh 16).writeView (.low .rax .qword) 0x700000001).Refuses
      ⟨.shl, [.register (.low .rax .dword), .immediate 32 8]⟩ := Machine.not_refuses_iff.2 ⟨rfl, _, rfl⟩
  obtain ⟨hexecutes, hidles⟩ := hnothing _ .shl _ _ 32 rfl hi rfl rfl
  obtain ⟨m', h⟩ := hexecutes.2 Machine.reaches_nil
  exact ⟨hshift (by decide), m', h, (hidles m' h).cell_eq .rax, (hidles m' h).flags_eq⟩

end Shift

end LongMode

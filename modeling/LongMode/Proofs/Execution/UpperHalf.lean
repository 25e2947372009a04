import LongMode.Proofs.Execution.Frame
import LongMode.Proofs.Execution.Scan
import LongMode.Proofs.Execution.Values

/-!
# Upper halves

A write to a 32-bit register clears the upper half of its cell.  Every instruction that has such a register for a
result does write it, also where the result is what the register held.

* `Transaction.Clears`: the cells of the 32-bit views of a list have clear upper halves.
* `Operation.run_clears`: an operation clears those of its footprint, by cases on the operation.  A scan of zero is the
  one that leaves its result alone.
* `upper_half_clear`: so does every instruction for its 32-bit destinations and the 32-bit registers that it writes
  without naming them.
-/

namespace LongMode

/-- A scan of an operand that holds zero. -/
def Instruction.ScansZero (m : Machine) (i : Instruction) : Prop :=
  (i.mnemonic = .bsf ∨ i.mnemonic = .bsr) ∧ ∃ d s, i.operands = [d, s] ∧ m.readOperand s = .ok 0

theorem View.write_lt_of_dword {v : View} (hv : v.width = .dword) (cell : Nat) (value : Int) :
    v.write cell value < 2 ^ 32 := by
  cases v with
  | high b => cases hv
  | low c w =>
    obtain rfl : w = .dword := hv
    exact truncate_lt 32 value

theorem Place.width_of_mem_views {v : View} {p : Place} (hv : v ∈ p.operand.views) : v.width = p.width := by
  cases p with
  | register u =>
    rw [List.mem_singleton.1 hv]
    rfl
  | memory l => cases hv

namespace Transaction

/-- The upper halves of the cells of 32-bit views are clear. -/
def Clears (t : Transaction) (vs : List View) : Prop := ∀ v ∈ vs, v.width = .dword → t.result.cell v.cell < 2 ^ 32

variable {t u : Transaction} {v : View} {vs : List View} {d : Place}

theorem clears_of_ne (t : Transaction) (h : ∀ v ∈ vs, v.width ≠ .dword) : t.Clears vs :=
  fun v hv hw => absurd hw (h v hv)

/-- A write through a 32-bit view adds the view, and spoils no other. -/
theorem Clears.writeView (h : t.Clears vs) (hv : v.width = .dword) (value : Int) :
    (t.writeView v value).Clears (vs ++ [v]) := by
  intro u hu hw
  rw [result_writeView, Machine.cell_writeView]
  by_cases hc : v.cell = u.cell
  · rw [if_pos hc]
    exact View.write_lt_of_dword hv _ value
  · rw [if_neg hc]
    rcases List.mem_append.1 hu with hu | hu
    · exact h u hu hw
    · exact absurd (congrArg View.cell (List.mem_singleton.1 hu).symm) hc

theorem clears_writeView (t : Transaction) (v : View) (value : Int) : (t.writeView v value).Clears [v] := by
  intro u hu hw
  obtain rfl := List.mem_singleton.1 hu
  have hnone : t.Clears [] := t.clears_of_ne nofun
  exact hnone.writeView hw value u hu hw

theorem Clears.setFlags (h : t.Clears vs) (e : FlagEffect) : (t.setFlags e).Clears vs := by
  intro v hv hw
  rw [result_setFlags]
  exact h v hv hw

/-- A place of 32 bits adds its view, if it has one. -/
theorem Clears.write (h : t.Clears vs) (hd : d.width = .dword) {value : Int} (hw : t.write d value = .ok u) :
    u.Clears (vs ++ d.operand.views) := by
  cases d with
  | register v =>
    cases hw
    exact h.writeView hd value
  | memory l =>
    have hstore := t.map_result_writeLocation l value
    rw [show t.writeLocation l value = .ok u from hw] at hstore
    obtain ⟨-, hresult⟩ := Machine.writeInteger_eq_ok.1 (mapError_eq_ok.1 hstore.symm)
    intro v hv hw
    have hmem : v ∈ vs := (List.mem_append.1 hv).resolve_right List.not_mem_nil
    rw [hresult]
    exact h v hmem hw

theorem clears_write {value : Int} (h : t.write d value = .ok u) : u.Clears d.operand.views := by
  cases d with
  | register v =>
    cases h
    exact t.clears_writeView v value
  | memory l => exact u.clears_of_ne nofun

theorem clears_finish {r : Flagged} (h : t.finish d r = .ok u) : u.Clears d.operand.views := by
  obtain ⟨u₁, hwrite, h⟩ := bind_eq_ok.1 h
  cases h
  exact (clears_write hwrite).setFlags _

theorem clears_update {f : Nat → Flagged} (h : t.update d f = .ok u) : u.Clears d.operand.views := by
  obtain ⟨a, -, h⟩ := bind_eq_ok.1 h
  exact clears_finish h

theorem clears_writeHalves (t : Transaction) (w : Width) (high low : Nat) :
    (t.writeHalves w high low).Clears w.accumulators := by
  cases w with
  | dword => exact (t.clears_writeView (lowHalf .dword) low).writeView rfl high
  | byte | word | qword => exact clears_of_ne _ (by decide)

theorem clears_multiplyHalves {f : Nat → Nat → Nat → Product} (h : t.multiplyHalves d f = .ok u) :
    u.Clears d.width.accumulators := by
  obtain ⟨a, -, h⟩ := bind_eq_ok.1 h
  cases h
  exact (t.clears_writeHalves _ _ _).setFlags _

theorem clears_divideHalves {f : Nat → Nat → Nat → Division} (h : t.divideHalves d f = .ok u) :
    u.Clears d.width.accumulators := by
  obtain ⟨divisor, -, h⟩ := bind_eq_ok.1 h
  split at h
  · cases h
  · dsimp only at h
    split at h
    · cases h
    · cases h
      exact t.clears_writeHalves _ _ _

/-- Where nothing is left of the count, the value itself is written to a 32-bit register. -/
theorem clears_moveBits {count : Source} {f : Nat → Nat → Nat → Flagged} (h : t.moveBits d count f = .ok u) :
    u.Clears d.operand.views := by
  obtain ⟨value, -, h⟩ := bind_eq_ok.1 h
  obtain ⟨n, -, h⟩ := bind_eq_ok.1 h
  split at h
  · cases d with
    | register v =>
      dsimp only at h
      split at h
      · cases h
        exact t.clears_writeView v value
      · rename_i hv
        exact u.clears_of_ne (List.forall_mem_singleton.2 hv)
    | memory l => exact u.clears_of_ne nofun
  · exact clears_finish h

end Transaction

open Transaction in
/-- An operation that does not stop clears the upper halves of its 32-bit results, unless it scans zero. -/
theorem Operation.run_clears {op : Operation} {t u : Transaction}
    (hexchange : ∀ p q, op = .exchange p q → p.width = q.width)
    (hscan : ∀ k v s, op = .scan k v s → t.readPlace s ≠ .ok 0) (h : op.run t = .ok u) :
    u.Clears (op.footprint t.result).views := by
  cases op with
  | nothing | compare d s | test d s | addPacked d s => exact u.clears_of_ne nofun
  | move d s =>
    obtain ⟨a, -, h⟩ := bind_eq_ok.1 h
    exact clears_write h
  | extend v s | extendSigned v s =>
    obtain ⟨a, -, h⟩ := bind_eq_ok.1 h
    cases h
    exact t.clears_writeView v _
  | loadAddress v a =>
    cases h
    exact t.clears_writeView v _
  | spreadSign w =>
    cases h
    exact t.clears_writeView (highHalf w) _
  | exchange p q =>
    obtain ⟨a, -, h⟩ := bind_eq_ok.1 h
    obtain ⟨b, -, h⟩ := bind_eq_ok.1 h
    obtain ⟨u₁, h₁, h⟩ := bind_eq_ok.1 h
    have hwidth := hexchange p q rfl
    by_cases hp : p.width = .dword
    · exact (clears_write h₁).write (hwidth ▸ hp) h
    · refine u.clears_of_ne fun v hv => ?_
      rcases List.mem_append.1 hv with hv | hv
      · rw [Place.width_of_mem_views hv]
        exact hp
      · rw [Place.width_of_mem_views hv, ← hwidth]
        exact hp
  | push s => exact u.clears_of_ne (List.forall_mem_singleton.2 (by decide))
  | pop d =>
    obtain ⟨a, -, h⟩ := bind_eq_ok.1 h
    intro v hv hw
    rcases List.mem_append.1 hv with hv | hv
    · exact clears_write h v hv hw
    · rw [List.mem_singleton.1 hv] at hw
      cases hw
  | moveIf zero d s =>
    obtain ⟨a, -, h⟩ := bind_eq_ok.1 h
    split at h
    · cases h
      exact t.clears_writeView d _
    · split at h
      · cases h
        exact t.clears_writeView d _
      · rename_i hd
        exact u.clears_of_ne (List.forall_mem_singleton.2 hd)
  | add c d s | subtract c d s | bitwise o d s =>
    obtain ⟨a, -, h⟩ := bind_eq_ok.1 h
    obtain ⟨b, -, h⟩ := bind_eq_ok.1 h
    exact clears_finish h
  | increment d | decrement d | negate d | complement d => exact clears_update h
  | multiply s | multiplySigned s => exact clears_multiplyHalves h
  | divide s | divideSigned s => exact clears_divideHalves h
  | multiplyInto v s r =>
    obtain ⟨a, -, h⟩ := bind_eq_ok.1 h
    obtain ⟨b, -, h⟩ := bind_eq_ok.1 h
    cases h
    exact (t.clears_writeView v _).setFlags _
  | shift k d c | rotate k d c => exact clears_moveBits h
  | scan k v s =>
    obtain ⟨a, hread, h⟩ := bind_eq_ok.1 h
    split at h
    · rename_i hnone
      rw [Scan.apply_eq_none.1 hnone] at hread
      exact absurd hread (hscan k v s rfl)
    · cases h
      exact (t.clears_writeView v _).setFlags _

/-- Only scans scan. -/
theorem Instruction.Means.scan_eq {i : Instruction} {op : Operation} (h : i.Means op) {k : Scan} {v : View} {p : Place}
    (heq : op = .scan k v p) :
    (i.mnemonic = .bsf ∨ i.mnemonic = .bsr) ∧ i.operands = [.register v, p.operand] := by
  cases h with
  | registerPair h =>
    cases h with
    | bsf =>
      cases heq
      exact ⟨Or.inl rfl, rfl⟩
    | bsr =>
      cases heq
      exact ⟨Or.inr rfl, rfl⟩
    | cmove | cmovne => cases heq
  | pair h | place h | narrow h | count h => cases h <;> cases heq
  | _ => cases heq

namespace Machine

variable {m m' : Machine} {i : Instruction}

/-- Whatever executes leaves the upper halves of the cells clear in which it has 32-bit results: its 32-bit register
destinations, and the 32-bit registers that it writes without naming them.  A scan of zero has no result. -/
theorem upper_half_clear (hm : m.valid = true) (h : m.execute i = .ok m') (hscan : ¬ i.ScansZero m) {v : View}
    (hv : v ∈ i.destinations.flatMap Operand.views ++ i.impliedViews) (hw : v.width = .dword) :
    m'.cell v.cell < 2 ^ 32 := by
  obtain ⟨op, t, hop, hrun, rfl⟩ := execute_eq_ok h
  have hmeans := Instruction.means_of_operation hop
  have hexchange : ∀ p q, op = .exchange p q → p.width = q.width := by
    rintro p q rfl
    obtain ⟨hmnemonic, hoperands⟩ := hmeans.exchange_eq rfl
    obtain ⟨mn, operands⟩ := i
    cases hmnemonic
    cases hoperands
    obtain ⟨p', q', heq, -, -, hwidth⟩ := Operation.of_ofExchange hop
    cases heq
    exact hwidth
  have hsource : ∀ k d s, op = .scan k d s → (Transaction.start m).readPlace s ≠ .ok 0 := by
    rintro k d s rfl hread
    obtain ⟨hmnemonic, hoperands⟩ := hmeans.scan_eq rfl
    rw [Transaction.readPlace_start (valid_iff.1 hm).size_eq, mapError_eq_ok, ← readOperand_place] at hread
    exact hscan ⟨hmnemonic, _, _, hoperands, hread⟩
  have hclears := Operation.run_clears hexchange hsource hrun
  rw [Transaction.result_start, hmeans.footprint_eq] at hclears
  exact hclears v hv hw

/-- A conditional move that is not taken still clears the upper half of its destination. -/
theorem upper_half_clear_untaken : ∃ m m' : Machine, m.valid = true ∧
    m.execute ⟨.cmove, [.register (.low .rax .dword), .register (.low .rcx .dword)]⟩ = .ok m' ∧
    ¬ (Instruction.mk .cmove [.register (.low .rax .dword), .register (.low .rcx .dword)]).ScansZero m ∧
    m.flags.zero = false ∧ m.cell .rax = 2 ^ 64 - 1 ∧ m'.cell .rax < 2 ^ 32 := by
  obtain ⟨m, hm⟩ : ∃ m, m = (fresh 16).writeView (.low .rax .qword) (-1) := ⟨_, rfl⟩
  have hvalid : m.valid = true := by
    rw [hm]
    decide
  obtain ⟨m', h⟩ : ∃ m', m.execute ⟨.cmove, [.register (.low .rax .dword), .register (.low .rcx .dword)]⟩ = .ok m' := by
    rw [hm]
    exact ⟨_, rfl⟩
  have hscan : ¬ (Instruction.mk .cmove [.register (.low .rax .dword), .register (.low .rcx .dword)]).ScansZero m := by
    rintro ⟨hmnemonic | hmnemonic, -⟩ <;> cases hmnemonic
  have hclear := upper_half_clear hvalid h hscan (v := .low .rax .dword) (by decide) rfl
  exact ⟨m, m', hvalid, h, hscan, by rw [hm]; rfl, by rw [hm]; rfl, hclear⟩

end Machine

end LongMode

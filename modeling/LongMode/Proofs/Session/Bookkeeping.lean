import LongMode.Proofs.Execution.Frame
import LongMode.Proofs.Session.Block
import LongMode.Proofs.Session.Invariant

/-!
# The books of a session

What the counter of the machine and the trace have to do with each other, whatever a session has obeyed.

* `Machine.rip_attemptAll`: the counter advances by the number of instructions that execute.
* `executed_add_faults`: every entry of a trace is an executed instruction or a fault.
* `obey_idle`: a command that only reads, or that cannot be read, changes nothing.
* `bookkeeping`: the counter is the number of executed instructions modulo `2 ^ 64`, and a reset leads back to the new
  session.
-/

namespace LongMode

/-- The command only reads, or its text cannot be read. -/
def Command.Idle : Command → Prop
  | assemble _ | readRegister _ | readMemory _ _ => True
  | step text => ∃ e, Assembly.parse text = .error e
  | run source => ∃ line ∈ Assembly.programLines source, ∃ e, Assembly.parse line = .error e
  | reset | writeRegister _ _ | writeMemory _ _ | writeInteger _ _ _ => False

namespace Machine

variable {m m' : Machine} {k : Nat}

/-- The counter is the number of instructions executed, modulo `2 ^ 64`. -/
def HasCounted (m : Machine) (k : Nat) : Prop := m.rip = (k : Int) % 2 ^ 64

theorem hasCounted_fresh (capacity : Nat) : (fresh capacity).HasCounted 0 := by
  show (0 : Int) = (0 : Nat) % 2 ^ 64
  decide

theorem HasCounted.execute (hm : m.HasCounted k) {i : Instruction} (h : m.execute i = .ok m') :
    m'.HasCounted (k + 1) := by
  have hrip := rip_execute h
  unfold HasCounted at hm ⊢
  omega

theorem hasCounted_attempt (hm : m.HasCounted k) (n : Nat) (i : Instruction) :
    (m.attempt n i).2.HasCounted (k + [(m.attempt n i).1].countP TraceEntry.succeeded) := by
  cases h : m.execute i with
  | error f =>
    rw [attempt_error h]
    exact hm
  | ok m' =>
    rw [attempt_ok h]
    exact hm.execute h

theorem hasCounted_attemptAll (hm : m.HasCounted k) (n : Nat) (is : List Instruction) :
    (m.attemptAll n is).2.2.HasCounted (k + (m.attemptAll n is).1.countP TraceEntry.succeeded) := by
  induction is generalizing m n k with
  | nil => exact hm
  | cons i rest ih =>
    cases h : m.execute i with
    | error f =>
      rw [attemptAll_cons_error h]
      exact hm
    | ok m' =>
      have hrest := ih (hm.execute h) (n + 1)
      have hone : ∀ entries, k + (⟨n, i, i.encode, none, m.snapshot, m'.snapshot⟩ :: entries).countP
          TraceEntry.succeeded = k + 1 + entries.countP TraceEntry.succeeded := by
        intro entries
        rw [List.countP_cons_of_pos rfl]
        omega
      rw [attemptAll_cons_ok h, hone]
      exact hrest

/-! ### Direct access -/

theorem HasCounted.writeNamed (hm : m.HasCounted k) {name : String} {value : Int}
    (h : m.writeNamed name value = .ok m') : m'.HasCounted k := by
  obtain ⟨r, -, rfl⟩ := map_eq_ok.1 h
  cases r with
  | view v => exact hm
  | vector x => exact hm

theorem HasCounted.writeBytes (hm : m.HasCounted k) {address : Int} {bytes : List UInt8}
    (h : m.writeBytes address bytes = .ok m') : m'.HasCounted k := by
  unfold Machine.writeBytes at h
  split at h <;> cases h
  exact hm

theorem HasCounted.writeInteger (hm : m.HasCounted k) {address : Int} {size : Nat} {value : Int}
    (h : m.writeInteger address size value = .ok m') : m'.HasCounted k := by
  unfold Machine.writeInteger at h
  split at h <;> cases h
  exact hm

end Machine

namespace Session

open Machine (HasCounted)

variable {s : Session}

theorem executed_add_faults (s : Session) : s.executed + s.faults.length = s.trace.length := by
  unfold executed faults
  induction s.trace with
  | nil => rfl
  | cons e rest ih =>
    cases he : e.fault with
    | none =>
      have hsucceeded : e.succeeded = true := by rw [TraceEntry.succeeded, he]; rfl
      rw [List.countP_cons_of_pos hsucceeded, List.filterMap_cons_none he, List.length_cons]
      omega
    | some f =>
      have hfailed : ¬ e.succeeded = true := by rw [TraceEntry.succeeded, he]; nofun
      rw [List.countP_cons_of_neg hfailed, List.filterMap_cons_some he, List.length_cons, List.length_cons]
      omega

private theorem hasCounted_append {m : Machine} {entries : List TraceEntry}
    (h : m.HasCounted (s.executed + entries.countP TraceEntry.succeeded)) :
    m.HasCounted (Session.mk m (s.trace ++ entries)).executed := by
  rwa [executed, List.countP_append]

/-- Every command keeps the counter and the trace in step. -/
theorem hasCounted_obey (hs : s.machine.HasCounted s.executed) (c : Command) :
    (s.obey c).2.machine.HasCounted (s.obey c).2.executed := by
  cases c with
  | assemble text => exact hs
  | step text =>
    simp only [obey, step]
    split
    · exact hs
    · exact hasCounted_append (Machine.hasCounted_attempt hs _ _)
  | run source =>
    simp only [obey, run]
    split
    · exact hs
    · exact hasCounted_append (Machine.hasCounted_attemptAll hs 0 _)
  | reset => exact Machine.hasCounted_fresh _
  | readRegister name => exact hs
  | writeRegister name value => exact Machine.KeptByWrites.settle_keeps hs fun _ h => hs.writeNamed h
  | readMemory address length => exact hs
  | writeMemory address bytes => exact Machine.KeptByWrites.settle_keeps hs fun _ h => hs.writeBytes h
  | writeInteger address size value => exact Machine.KeptByWrites.settle_keeps hs fun _ h => hs.writeInteger h

theorem hasCounted_obeyAll (hs : s.machine.HasCounted s.executed) (commands : List Command) :
    (s.obeyAll commands).2.machine.HasCounted (s.obeyAll commands).2.executed :=
  obeyAll_induction (P := fun s => s.machine.HasCounted s.executed) (fun _ c h => hasCounted_obey h c) hs commands

theorem readAll_unread {n : Nat} {lines : List (List Char)}
    (h : ∃ line ∈ lines, ∃ e, Assembly.parse line = .error e) : ∃ p, readAll n lines = .error p := by
  obtain ⟨line, hline, e, he⟩ := h
  cases hread : readAll n lines with
  | error p => exact ⟨p, rfl⟩
  | ok is =>
    -- a line that cannot be read would be among the lines that were read
    have hall := readAll_eq_ok.1 hread
    have hmem : Assembly.parse line ∈ is.map .ok := hall ▸ List.mem_map_of_mem hline
    obtain ⟨i, -, hi⟩ := List.mem_map.1 hmem
    rw [he] at hi
    cases hi

theorem obey_idle (s : Session) {c : Command} (hc : c.Idle) : (s.obey c).2 = s := by
  cases c with
  | assemble text => rfl
  | step text =>
    obtain ⟨e, he⟩ := hc
    rw [obey, step, he]
  | run source =>
    obtain ⟨p, hp⟩ := readAll_unread (n := 0) hc
    rw [obey, run, hp]
  | readRegister name => rfl
  | readMemory address length => rfl
  | reset => exact hc.elim
  | writeRegister name value => exact hc.elim
  | writeMemory address bytes => exact hc.elim
  | writeInteger address size value => exact hc.elim

theorem bookkeeping {size : Int} (hpos : 0 < size) : ∃ new, create size = .ok new ∧ ∀ commands : List Command,
    let s := (new.obeyAll commands).2
    s.machine.rip = (s.executed : Int) % 2 ^ 64 ∧ s.executed + s.faults.length = s.trace.length ∧
      (∀ c : Command, c.Idle → (s.obey c).2 = s) ∧
      (s.obey .reset).2 = new ∧ ∀ further : List Command, (s.obey .reset).2.obeyAll further = new.obeyAll further := by
  refine ⟨_, create_eq_ok hpos, fun commands => ?_⟩
  intro s
  have hcounted : s.machine.HasCounted s.executed :=
    hasCounted_obeyAll (s := ⟨Machine.fresh size.toNat, []⟩) (Machine.hasCounted_fresh _) commands
  have hcapacity : s.machine.capacity = size.toNat :=
    (Machine.KeptByWrites.capacity size.toNat).obeyAll (s := ⟨Machine.fresh size.toNat, []⟩) (fun m h => h) rfl commands
  have hreset : (s.obey .reset).2 = ⟨Machine.fresh size.toNat, []⟩ := by
    show Session.mk (Machine.fresh s.machine.capacity) [] = _
    rw [hcapacity]
  exact ⟨hcounted, s.executed_add_faults, fun c hc => s.obey_idle hc, hreset, fun further => by rw [hreset]⟩

/-- A run that stops at an empty stack, a step, and a line that cannot be read: two instructions count. -/
theorem bookkeeping_empty_stack : (0 : Int) < 16 ∧ ∃ new, create 16 = .ok new ∧
    let s := (new.obeyAll [.run "inc rax\npop rbx\nnop".toList, .step "nop".toList, .step "mov rax".toList]).2
    s.machine.rip = 2 ∧ s.executed = 2 ∧ s.trace.length = 3 ∧ (s.obey .reset).2 = new := by
  obtain ⟨new, hnew, h⟩ := bookkeeping (by decide : (0 : Int) < 16)
  have hfresh : new = ⟨.fresh 16, []⟩ := Except.ok.inj (hnew.symm.trans (create_eq_ok (by decide)))
  subst hfresh
  obtain ⟨hrip, hlength, -, hreset, -⟩ :=
    h [.run "inc rax\npop rbx\nnop".toList, .step "nop".toList, .step "mov rax".toList]
  exact ⟨by decide, _, hnew, hrip.trans (by decide), by decide, hlength.symm.trans (by decide), hreset⟩

end Session

end LongMode

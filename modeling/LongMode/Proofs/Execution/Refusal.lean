import LongMode.Execution.Registry
import LongMode.Proofs.Outcome

/-!
# Refusals

An instruction is refused when its operands are wrong: in number, in kind or in width.

* `execute_eq`: execution is a check, the choice of an operation and its run on a transaction (`execute_eq_ok` if it
  succeeds, `execute_of_operation` if the operands are accepted, `execute_of_run` if the operation runs to its end).
* `refuses_iff`: an instruction is refused exactly when the check or the choice fails, so a refusal is a matter of the
  instruction alone (`refuses_congr`).  One that is not refused has an operation (`not_refuses_iff`).
* `check_eq_ok`: what the check asks for.
-/

namespace LongMode

/-- The faults that are about operands, and not about the machine. -/
def FaultKind.isRefusal : FaultKind → Bool
  | invalidOperands | widthMismatch => true
  | _ => false

/-- Execution on the machine ends with a fault that is about the operands. -/
def Machine.Refuses (m : Machine) (i : Instruction) : Prop :=
  ∃ f, m.execute i = .error f ∧ f.kind.isRefusal = true

/-- Immediates lie within their widths, as signed or as unsigned numbers. -/
def ImmediatesFit (operands : List Operand) : Prop := ∀ z n, .immediate z n ∈ operands → fits n z = true

theorem Instruction.check_eq_ok {i : Instruction} :
    i.check = .ok () ↔ i.operands.length ∈ i.mnemonic.operandCounts ∧
      (i.usesVector = true → i.mnemonic.isPacked = true) ∧ i.memoryOperands ≤ 1 ∧ ImmediatesFit i.operands := by
  unfold check
  dsimp only
  by_cases hc : i.operands.length ∈ i.mnemonic.operandCounts <;>
    by_cases hv : i.usesVector = true <;> by_cases hp : i.mnemonic.isPacked = true <;>
    by_cases hm : i.memoryOperands ≤ 1 <;>
    simp [hc, hv, hp, hm, bind, Except.bind, Nat.not_lt.2, Nat.not_le.1, forM_eq_ok]
  -- the checks in front passed, so what is left is the one of the immediates
  all_goals
    constructor
    · intro h z n hmem
      simpa using h _ hmem
    · intro h o hmem
      cases o with
      | immediate z n => simp [h z n hmem]
      | _ => rfl

/-- A single operand passes if it is not a vector register, and if its value fits where it is an immediate. -/
theorem Instruction.check_one {mn : Mnemonic} (hcount : 1 ∈ mn.operandCounts) {o : Operand}
    (ho : o.isVector = false) (hfits : ∀ z n, o = .immediate z n → fits n z = true) :
    (Instruction.mk mn [o]).check = .ok () := by
  have hvector : (Instruction.mk mn [o]).usesVector = false := by rw [usesVector, List.any_cons, ho]; rfl
  have hmemory : (Instruction.mk mn [o]).memoryOperands ≤ 1 := List.countP_le_length
  rw [check_eq_ok, hvector]
  refine ⟨hcount, nofun, hmemory, fun z n hmem => ?_⟩
  exact hfits z n (List.mem_singleton.1 hmem).symm

namespace Machine

/-- Every mnemonic has the same handler, so execution does not depend on the mnemonic before its operation does. -/
theorem execute_eq (m : Machine) (i : Instruction) :
    m.execute i = do
      i.check.mapError (Fault.refused i)
      let op ← i.operation.mapError (Fault.refused i)
      return (← (op.run (Transaction.start m)).mapError (Stop.fault i)).commit := by
  have hl : Registry.standard.handlers.lookup i.mnemonic = some Handler.standard := by
    cases i.mnemonic <;> rfl
  unfold execute Registry.execute
  rw [hl]
  simp only [Handler.standard, bind_assoc]

/-- What executes has an operation, which has been run and committed. -/
theorem execute_eq_ok {m m' : Machine} {i : Instruction} (h : m.execute i = .ok m') :
    ∃ op t, i.operation = .ok op ∧ op.run (Transaction.start m) = .ok t ∧ m' = t.commit := by
  rw [execute_eq] at h
  obtain ⟨_, -, h⟩ := bind_eq_ok.1 h
  obtain ⟨op, hop, h⟩ := bind_eq_ok.1 h
  obtain ⟨t, ht, h⟩ := bind_eq_ok.1 h
  cases h
  exact ⟨op, t, mapError_eq_ok.1 hop, mapError_eq_ok.1 ht, rfl⟩

/-- What an instruction with accepted operands does to a machine. -/
theorem execute_of_operation {i : Instruction} {op : Operation} (hcheck : i.check = .ok ())
    (hop : i.operation = .ok op) (m : Machine) : m.execute i =
      (((op.run (Transaction.start m)).map Transaction.result).mapError (Stop.fault i)).map advance := by
  rw [execute_eq, hcheck, hop]
  simp only [mapError_ok, ok_bind]
  cases op.run (Transaction.start m) <;> rfl

/-- What an instruction leaves whose operation runs to its end. -/
theorem execute_of_run {i : Instruction} {op : Operation} (hcheck : i.check = .ok ()) (hop : i.operation = .ok op)
    {m : Machine} {t : Transaction} (hrun : op.run (Transaction.start m) = .ok t) :
    m.execute i = .ok t.result.advance := by
  rw [execute_of_operation hcheck hop, hrun, map_ok, mapError_ok, map_ok]

private theorem isRefusal_refused (i : Instruction) (r : Refusal) : (Fault.refused i r).kind.isRefusal = true := by
  cases r <;> rfl

private theorem isRefusal_fault (i : Instruction) (s : Stop) : (s.fault i).kind.isRefusal = false := by
  cases s <;> rfl

theorem refuses_iff {m : Machine} {i : Instruction} :
    m.Refuses i ↔ ¬ (i.check = .ok () ∧ ∃ op, i.operation = .ok op) := by
  unfold Refuses
  rw [execute_eq]
  cases hc : i.check with
  | error r => simp [bind, Except.bind, isRefusal_refused]
  | ok u =>
    cases ho : i.operation with
    | error r => simp [bind, Except.bind, isRefusal_refused]
    | ok op =>
      cases hr : op.run (Transaction.start m) with
      | error s => simp [bind, Except.bind, hr, isRefusal_fault]
      | ok t => simp [bind, Except.bind, hr, pure, Except.pure]

theorem not_refuses_iff {m : Machine} {i : Instruction} :
    ¬ m.Refuses i ↔ i.check = .ok () ∧ ∃ op, i.operation = .ok op := by
  rw [refuses_iff, Classical.not_not]

theorem refuses_congr (m m' : Machine) (i : Instruction) : m.Refuses i ↔ m'.Refuses i := by
  rw [refuses_iff, refuses_iff]

end Machine

end LongMode

import LongMode.Proofs.Arith.Product
import LongMode.Proofs.Execution.Accesses
import LongMode.Proofs.Execution.Frame
import LongMode.Proofs.Execution.Values
import LongMode.Session.Trace

/-!
# Faults

When an instruction with accepted operands faults, and with which fault.

* `Instruction.accesses`: the spans of memory that an instruction needs, read off its mnemonic and its operands.
* `Instruction.DividesByZero` and `OverflowsQuotient`: a division by an operand that holds zero, and one whose quotient
  does not fit the accumulator.
* `Operation.run_ends`: how an operation ends.  An access outside memory comes before the faults of a division.
* `execute_fault_iff`: an instruction faults in these cases only, and a fault leaves the machine as it was.
-/

namespace LongMode

/-- The spans that an instruction reads or writes.  A push stores below the stack pointer; a pop reads at the stack
pointer and addresses its destination with the stack pointer raised already. -/
def Instruction.accesses (m : Machine) (i : Instruction) : List Span :=
  match i.mnemonic with
  | .lea => []
  | .push => i.operands.flatMap (Operand.spans m) ++ [m.belowStack]
  | .pop => ⟨m.readView .rsp, 8⟩ :: i.operands.flatMap (Operand.spans m.popped)
  | _ => i.operands.flatMap (Operand.spans m)

/-! ### Divisions -/

namespace Machine

/-- What a division by an operand of a width divides: ax, or the data register in front of the accumulator. -/
def dividend (m : Machine) : Width → Nat
  | .byte => m.readView (.low .rax .word)
  | w => m.readView (.low .rdx w) * 2 ^ w.bits + m.readView (.low .rax w)

/-- The unsigned quotient by a divisor, rounded down, does not fit the accumulator. -/
def OverflowsUnsigned (m : Machine) (w : Width) (divisor : Nat) : Prop :=
  ¬ m.dividend w / divisor < 2 ^ w.bits

/-- The signed quotient by a divisor, truncated toward zero, does not fit the accumulator. -/
def OverflowsSigned (m : Machine) (w : Width) (divisor : Nat) : Prop :=
  let quotient := (signed (2 * w.bits) (m.dividend w)).tdiv (signed w.bits divisor)
  ¬ (-2 ^ (w.bits - 1) ≤ quotient ∧ quotient < 2 ^ (w.bits - 1))

end Machine

namespace Instruction

/-- A division by an operand that holds zero. -/
def DividesByZero (m : Machine) (i : Instruction) : Prop :=
  ∃ p, (i = ⟨.div, [p.operand]⟩ ∨ i = ⟨.idiv, [p.operand]⟩) ∧ m.readPlace p = .ok 0

/-- A division by another number whose quotient does not fit the accumulator. -/
def OverflowsQuotient (m : Machine) (i : Instruction) : Prop :=
  ∃ p divisor, m.readPlace p = .ok divisor ∧ divisor ≠ 0 ∧
    (i = ⟨.div, [p.operand]⟩ ∧ m.OverflowsUnsigned p.width divisor ∨
      i = ⟨.idiv, [p.operand]⟩ ∧ m.OverflowsSigned p.width divisor)

variable {i : Instruction} {op : Operation}

/-- The operations on one place are those of the mnemonics with one operand. -/
theorem eq_place_iff {mn : Mnemonic} {f : Place → Operation} (hf : mn.OnPlace f) (h : i.operation = .ok op)
    {p : Place} : op = f p ↔ i = ⟨mn, [p.operand]⟩ := by
  constructor
  · intro heq
    cases means_of_operation h with
    | place h' q => cases h' <;> cases hf <;> cases heq <;> rfl
    | pair h' | registerPair h' | narrow h' | count h' => cases h' <;> cases hf <;> cases heq
    | _ => cases hf <;> cases heq
  · rintro rfl
    rw [operation_place hf] at h
    exact (Except.ok.inj h).symm

/-- The operation needs what the instruction says. -/
theorem Means.accesses_eq (h : i.Means op) (m : Machine) : op.accesses m = i.accesses m := by
  cases h with
  | pair h p s => cases h <;> cases p <;> cases s <;> rfl
  | place h p => cases h <;> cases p <;> rfl
  | registerPair h v p | narrow h v p => cases h <;> cases p <;> rfl
  | count h p c => cases h <;> cases p <;> cases c <;> rfl
  | xchg p q => cases p <;> cases q <;> rfl
  | push s => cases s <;> rfl
  | pop p | multiplyInto v p | multiplyByConstant v p z => cases p <;> rfl
  | _ => rfl

end Instruction

/-! ### How an operation ends -/

/-- An access outside memory comes first, and the faults of a division after it; otherwise there is a result. -/
inductive Ends {α : Type} (inside zero large : Prop) : Except Stop α → Prop
  | outOfBounds (a : OutOfBounds) (h : ¬ inside) : Ends inside zero large (.error (.outOfBounds a))
  | divideByZero (h : inside) (hzero : zero) (hlarge : ¬ large) : Ends inside zero large (.error .divideByZero)
  | divideOverflow (h : inside) (hzero : ¬ zero) (hlarge : large) : Ends inside zero large (.error .divideOverflow)
  | result (a : α) (h : inside) (hzero : ¬ zero) (hlarge : ¬ large) : Ends inside zero large (.ok a)

namespace Operation

/-- The operation divides by a place that holds zero. -/
def DividesByZero (m : Machine) (op : Operation) : Prop :=
  ∃ p, (op = .divide p ∨ op = .divideSigned p) ∧ m.readPlace p = .ok 0

/-- The operation divides by another number, and the quotient does not fit. -/
def OverflowsQuotient (m : Machine) (op : Operation) : Prop :=
  ∃ p divisor, m.readPlace p = .ok divisor ∧ divisor ≠ 0 ∧
    (op = .divide p ∧ m.OverflowsUnsigned p.width divisor ∨
      op = .divideSigned p ∧ m.OverflowsSigned p.width divisor)

end Operation

theorem Guarded.ends {α : Type} {inside zero large : Prop} {x : Except Stop α} (h : Guarded inside x)
    (hzero : ¬ zero) (hlarge : ¬ large) : Ends inside zero large x := by
  match x, h with
  | .ok a, (h : inside) => exact .result a h hzero hlarge
  | .error (.outOfBounds a), (h : ¬ inside) => exact .outOfBounds a h

namespace Transaction

variable {m : Machine}

theorem readHalves_start (w : Width) : (start m).readHalves w = m.dividend w := by cases w <;> rfl

/-- A division ends as its divisor and its quotient say, once the divisor is read. -/
private theorem divideHalves_ends (hm : m.memory.size = m.capacity) (p : Place) (f : Nat → Nat → Nat → Division) :
    Ends (m.Reaches (p.operand.spans m)) (m.readPlace p = .ok 0)
      (∃ d, m.readPlace p = .ok d ∧ d ≠ 0 ∧ (f p.width.bits (m.dividend p.width) d).quotient = none)
      ((start m).divideHalves p f) := by
  have hguard := (start m).guarded_readPlace p
  rw [result_start, readPlace_start hm] at hguard
  unfold divideHalves
  dsimp only
  rw [readPlace_start hm, readHalves_start]
  cases hread : m.readPlace p with
  | error e =>
    rw [hread] at hguard
    exact .outOfBounds e hguard
  | ok d =>
    rw [hread] at hguard
    have hinside : m.Reaches (p.operand.spans m) := hguard
    by_cases hd : d = 0
    · subst hd
      refine .divideByZero hinside rfl ?_
      rintro ⟨d, hd, hne, -⟩
      exact hne (Except.ok.inj hd).symm
    · have hzero : (Except.ok d : Except OutOfBounds Nat) ≠ .ok 0 := fun h => hd (Except.ok.inj h)
      rw [mapError_ok, ok_bind, if_neg hd]
      cases hq : (f p.width.bits (m.dividend p.width) d).quotient with
      | none => exact .divideOverflow hinside hzero ⟨d, rfl, hd, hq⟩
      | some q =>
        refine .result _ hinside hzero ?_
        rintro ⟨d', hd', -, hnone⟩
        rw [← Except.ok.inj hd', hq] at hnone
        cases hnone

end Transaction

theorem Ends.congr {α : Type} {inside zero zero' large large' : Prop} {x : Except Stop α}
    (h : Ends inside zero large x) (hz : zero ↔ zero') (hl : large ↔ large') : Ends inside zero' large' x :=
  propext hz ▸ propext hl ▸ h

theorem Ends.map {α β : Type} {inside zero large : Prop} {x : Except Stop α} (f : α → β)
    (h : Ends inside zero large x) : Ends inside zero large (x.map f) := by
  cases h with
  | outOfBounds a h => exact .outOfBounds a h
  | divideByZero h hzero hlarge => exact .divideByZero h hzero hlarge
  | divideOverflow h hzero hlarge => exact .divideOverflow h hzero hlarge
  | result a h hzero hlarge => exact .result (f a) h hzero hlarge

section

variable {α : Type} {inside zero large : Prop} {x : Except Stop α} (h : Ends inside zero large x) (i : Instruction)
include h

private theorem Ends.outOfBounds_iff :
    (∃ f, x.mapError (Stop.fault i) = .error f ∧ f.kind = .memoryOutOfBounds) ↔ ¬ inside := by
  cases h <;> simp_all [Stop.fault, Fault.kind]

private theorem Ends.divideByZero_iff :
    (∃ f, x.mapError (Stop.fault i) = .error f ∧ f.kind = .divideByZero) ↔ inside ∧ zero := by
  cases h <;> simp_all [Stop.fault, Fault.kind]

private theorem Ends.divideOverflow_iff :
    (∃ f, x.mapError (Stop.fault i) = .error f ∧ f.kind = .divideOverflow) ↔ inside ∧ large := by
  cases h <;> simp_all [Stop.fault, Fault.kind]

private theorem Ends.ok_iff : (∃ a, x.mapError (Stop.fault i) = .ok a) ↔ inside ∧ ¬ zero ∧ ¬ large := by
  cases h <;> simp_all

end

/-- An operation ends outside memory, or at the fault of a division, or with a result. -/
theorem Operation.run_ends {op : Operation} (hexchange : ∀ p l, op ≠ .exchange p (.memory l)) {m : Machine}
    (hm : m.memory.size = m.capacity) : Ends (m.Reaches (op.accesses m)) (op.DividesByZero m) (op.OverflowsQuotient m)
      (op.run (Transaction.start m)) := by
  by_cases hdivision : ∃ p, op = .divide p ∨ op = .divideSigned p
  · obtain ⟨p, rfl | rfl⟩ := hdivision
    · refine (Transaction.divideHalves_ends hm p Word.divide).congr ⟨fun h => ⟨p, .inl rfl, h⟩, ?_⟩ ⟨?_, ?_⟩
      · rintro ⟨q, hq | hq, h⟩ <;> cases hq
        exact h
      · rintro ⟨d, hd, hne, hnone⟩
        exact ⟨p, d, hd, hne, .inl ⟨rfl, Word.quotient_divide_eq_none.1 hnone⟩⟩
      · rintro ⟨q, d, hd, hne, ⟨hq, hlarge⟩ | ⟨hq, -⟩⟩ <;> cases hq
        exact ⟨d, hd, hne, Word.quotient_divide_eq_none.2 hlarge⟩
    · refine (Transaction.divideHalves_ends hm p Word.divideSigned).congr ⟨fun h => ⟨p, .inr rfl, h⟩, ?_⟩ ⟨?_, ?_⟩
      · rintro ⟨q, hq | hq, h⟩ <;> cases hq
        exact h
      · rintro ⟨d, hd, hne, hnone⟩
        exact ⟨p, d, hd, hne, .inr ⟨rfl, Word.quotient_divideSigned_eq_none.1 hnone⟩⟩
      · rintro ⟨q, d, hd, hne, ⟨hq, -⟩ | ⟨hq, hlarge⟩⟩ <;> cases hq
        exact ⟨d, hd, hne, Word.quotient_divideSigned_eq_none.2 hlarge⟩
  · have hguard := op.run_guarded hexchange
      (fun p => ⟨fun h => hdivision ⟨p, .inl h⟩, fun h => hdivision ⟨p, .inr h⟩⟩) (Transaction.start m)
    exact hguard.ends (fun ⟨p, h, _⟩ => hdivision ⟨p, h⟩)
      fun ⟨p, _, _, _, h⟩ => hdivision ⟨p, h.imp And.left And.left⟩

/-! ### How an instruction ends -/

namespace Instruction

variable {i : Instruction} {op : Operation} {m : Machine}

theorem dividesByZero_iff (h : i.operation = .ok op) : op.DividesByZero m ↔ i.DividesByZero m := by
  simp only [Operation.DividesByZero, DividesByZero, eq_place_iff .div h, eq_place_iff .idiv h]

theorem overflowsQuotient_iff (h : i.operation = .ok op) : op.OverflowsQuotient m ↔ i.OverflowsQuotient m := by
  simp only [Operation.OverflowsQuotient, OverflowsQuotient, eq_place_iff .div h, eq_place_iff .idiv h]

end Instruction

namespace Machine

variable {m : Machine} {i : Instruction}

/-- An instruction with accepted operands ends as its accesses and its division say. -/
theorem execute_ends (hm : m.memory.size = m.capacity) (hi : ¬ m.Refuses i)
    (hx : ∀ o l, ¬ (i.mnemonic = .xchg ∧ i.operands = [o, .memory l])) :
    ∃ outcome : Except Stop Machine, m.execute i = outcome.mapError (Stop.fault i) ∧
      Ends (m.Reaches (i.accesses m)) (i.DividesByZero m) (i.OverflowsQuotient m) outcome := by
  obtain ⟨hcheck, op, hop⟩ := not_refuses_iff.1 hi
  have hmeans := Instruction.means_of_operation hop
  have hexchange : ∀ p l, op ≠ .exchange p (.memory l) := fun p l heq => hx p.operand l (hmeans.exchange_eq heq)
  have hends := (op.run_ends hexchange hm).congr (Instruction.dividesByZero_iff hop)
    (Instruction.overflowsQuotient_iff hop)
  rw [hmeans.accesses_eq] at hends
  refine ⟨(op.run (Transaction.start m)).map Transaction.commit, ?_, ?_⟩
  · rw [execute_of_operation hcheck hop]
    cases op.run (Transaction.start m) <;> rfl
  · exact hends.map Transaction.commit

/-- An instruction whose operands are accepted faults outside memory if one of its spans is, otherwise at a division by
zero or by a number that is too small for the dividend, and executes in every other case.  After a fault the machine is
what it was. -/
theorem execute_fault_iff (hm : m.valid = true) (hi : ¬ m.Refuses i)
    (hx : ∀ o l, ¬ (i.mnemonic = .xchg ∧ i.operands = [o, .memory l])) :
    ((∃ f, m.execute i = .error f ∧ f.kind = .memoryOutOfBounds) ↔ ∃ s ∈ i.accesses m, ¬ s.Inside m) ∧
      ((∃ f, m.execute i = .error f ∧ f.kind = .divideByZero) ↔
        (∀ s ∈ i.accesses m, s.Inside m) ∧ i.DividesByZero m) ∧
      ((∃ f, m.execute i = .error f ∧ f.kind = .divideOverflow) ↔
        (∀ s ∈ i.accesses m, s.Inside m) ∧ i.OverflowsQuotient m) ∧
      ((∃ m', m.execute i = .ok m') ↔
        (∀ s ∈ i.accesses m, s.Inside m) ∧ ¬ i.DividesByZero m ∧ ¬ i.OverflowsQuotient m) ∧
      ∀ f n, m.execute i = .error f → (m.attempt n i).1.fault = some f ∧
        (m.attempt n i).1.before = m.snapshot ∧ (m.attempt n i).1.after = m.snapshot ∧ (m.attempt n i).2 = m := by
  obtain ⟨outcome, hexecute, hends⟩ := execute_ends (valid_iff.1 hm).size_eq hi hx
  have hunchanged : ∀ f n, m.execute i = .error f → (m.attempt n i).1.fault = some f ∧
      (m.attempt n i).1.before = m.snapshot ∧ (m.attempt n i).1.after = m.snapshot ∧ (m.attempt n i).2 = m := by
    intro f n hf
    rw [attempt, hf]
    exact ⟨rfl, rfl, rfl, rfl⟩
  have houtside : (∃ s ∈ i.accesses m, ¬ s.Inside m) ↔ ¬ m.Reaches (i.accesses m) := by
    simp only [Reaches, Classical.not_forall, exists_prop]
  rw [hexecute] at hunchanged ⊢
  rw [houtside]
  exact ⟨hends.outOfBounds_iff i, hends.divideByZero_iff i, hends.divideOverflow_iff i, hends.ok_iff i, hunchanged⟩

/-- A conditional move that is not taken reads its source all the same. -/
theorem execute_fault_iff_untaken : (fresh 16).valid = true ∧ (fresh 16).flags.get .zero = false ∧
    ∃ f, (fresh 16).execute
      ⟨.cmove, [.register (.low .rax .qword), .memory ⟨⟨none, none, .one, 16⟩, .qword⟩]⟩ = .error f ∧
      f.kind = .memoryOutOfBounds := by
  have hm : (fresh 16).valid = true := by decide
  have hi : ¬ (fresh 16).Refuses
      ⟨.cmove, [.register (.low .rax .qword), .memory ⟨⟨none, none, .one, 16⟩, .qword⟩]⟩ :=
    fun h => refuses_iff.1 h ⟨rfl, _, rfl⟩
  have hx := execute_fault_iff hm hi fun _ _ h => absurd h.1 (by decide)
  exact ⟨hm, rfl, hx.1.2 ⟨⟨16, 8⟩, List.mem_singleton.2 rfl, by decide⟩⟩

end Machine

end LongMode

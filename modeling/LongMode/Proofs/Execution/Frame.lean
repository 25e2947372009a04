import LongMode.Proofs.Execution.Choice
import LongMode.Proofs.Execution.Footprint
import LongMode.Proofs.Machine.Range

/-!
# The frame of an instruction

What an instruction leaves alone, read off its mnemonic and its operands.

* `Instruction.footprint`: the views, vector registers, flags and spans of memory that an instruction may change.
* `Means.footprint_eq`: it is the footprint of the operation that the instruction stands for.
* `changesOnly_execute`: an instruction that executes changes nothing outside its footprint.
* `frame_of_execute`: it also counts one and keeps a valid machine valid.
-/

namespace LongMode

/-- The flags that a mnemonic defines. -/
def Mnemonic.definedFlags : Mnemonic → List Flag
  | mov | movzx | movsx | movsxd | lea | xchg | push | pop | cmove | cmovne | cqo | cdq | nop => []
  | not | div | idiv | paddd => []
  | inc | dec => [.parity, .adjust, .zero, .sign, .overflow]
  | rol | ror => [.carry, .overflow]
  | bsf | bsr => [.zero]
  | add | adc | sub | sbb | neg | mul | imul | cmp | and | or | xor | test | shl | shr | sar => Flag.all

/-- The accumulator of a product or of a division by an operand. -/
def Operand.accumulators : Operand → List View
  | register v => v.width.accumulators
  | memory l => l.width.accumulators
  | _ => []

namespace Instruction

/-- The operands that an instruction writes. -/
def destinations (i : Instruction) : List Operand :=
  match i.mnemonic, i.operands with
  | .cmp, _ | .test, _ | .push, _ | .mul, _ | .div, _ | .idiv, _ | .imul, [_] => []
  | .xchg, operands => operands
  | _, operands => operands.take 1

/-- The views that an instruction writes without naming them. -/
def impliedViews (i : Instruction) : List View :=
  match i.mnemonic, i.operands with
  | .push, _ | .pop, _ => [.rsp]
  | .cqo, _ => [.low .rdx .qword]
  | .cdq, _ => [.low .rdx .dword]
  | .mul, [s] | .imul, [s] | .div, [s] | .idiv, [s] => s.accumulators
  | _, _ => []

/-- The flags that an instruction defines: none if it is a shift or a rotation by nothing. -/
def definedFlags (m : Machine) (i : Instruction) : List Flag :=
  match i.operands with
  | [d, count] =>
    if i.mnemonic.isShift = true ∧ count.CountsNothing m d.bits then [] else i.mnemonic.definedFlags
  | _ => i.mnemonic.definedFlags

/-- The memory that an instruction writes: the bytes below the stack pointer for a push, and those of the destinations
otherwise, which a pop addresses with the stack pointer raised already. -/
def writtenSpans (m : Machine) (i : Instruction) : List Span :=
  match i.mnemonic with
  | .push => [m.belowStack]
  | .pop => i.destinations.flatMap (Operand.spans m.popped)
  | _ => i.destinations.flatMap (Operand.spans m)

def footprint (m : Machine) (i : Instruction) : Footprint where
  views := i.destinations.flatMap Operand.views ++ i.impliedViews
  vectors := if i.mnemonic = .paddd then i.destinations.flatMap Operand.vectors else []
  flags := i.definedFlags m
  spans := i.writtenSpans m

/-! ### The operation of an instruction -/

variable {op : Operation} {i : Instruction}

private theorem definedFlags_count {m : Machine} {mn : Mnemonic} {p : Place} {c : Operand} (hs : mn.isShift = true) :
    (Instruction.mk mn [p.operand, c]).definedFlags m =
      if c.CountsNothing m p.width.bits then [] else mn.definedFlags := by
  have hcount : (mn.isShift = true ∧ c.CountsNothing m p.operand.bits) = c.CountsNothing m p.width.bits := by
    rw [Place.bits_operand, hs, eq_self, true_and]
  exact ite_congr hcount (fun _ => rfl) fun _ => rfl

/-- The footprint of the operation is what the instruction says. -/
theorem Means.footprint_eq (h : i.Means op) (m : Machine) : op.footprint m = i.footprint m := by
  cases h with
  | pair h p s => cases h <;> cases p <;> rfl
  | place h p => cases h <;> cases p <;> rfl
  | registerPair h v p | narrow h v p => cases h <;> rfl
  | @count mn f h p c =>
    have hs : mn.isShift = true := by cases h <;> rfl
    rw [footprint, definedFlags_count hs]
    cases h <;> cases p <;> rfl
  | xchg p q => cases p <;> cases q <;> rfl
  | pop p => cases p <;> rfl
  | _ => rfl

/-- Only an exchange exchanges. -/
theorem Means.exchange_eq (h : i.Means op) {p q : Place} (heq : op = .exchange p q) :
    i.mnemonic = .xchg ∧ i.operands = [p.operand, q.operand] := by
  cases h with
  | pair h | place h | registerPair h | narrow h | count h => cases h <;> cases heq
  | xchg p' q' =>
    cases heq
    exact ⟨rfl, rfl⟩
  | _ => cases heq

end Instruction

/-! ### Execution -/

namespace Machine

theorem rip_execute {m m' : Machine} {i : Instruction} (h : m.execute i = .ok m') : m'.rip = (m.rip + 1) % 2 ^ 64 := by
  obtain ⟨op, t, -, hrun, rfl⟩ := execute_eq_ok h
  have hmachine : t.machine = m := (Transaction.run_writes hrun).machine_eq
  show (t.machine.rip + 1) % 2 ^ 64 = _
  rw [hmachine]

/-- Whatever executes changes its footprint only.  An exchange with a second operand in memory is left out. -/
theorem changesOnly_execute {m m' : Machine} {i : Instruction}
    (hi : ∀ o l, ¬ (i.mnemonic = .xchg ∧ i.operands = [o, .memory l])) (h : m.execute i = .ok m') :
    m.ChangesOnly (i.footprint m) m' := by
  obtain ⟨op, t, hop, hrun, rfl⟩ := execute_eq_ok h
  have hmeans := Instruction.means_of_operation hop
  have hexchange : ∀ p l, op ≠ .exchange p (.memory l) := fun p l heq => hi p.operand l (hmeans.exchange_eq heq)
  have hchanges := Operation.run_changesOnly hexchange hrun
  rw [Transaction.result_start, hmeans.footprint_eq] at hchanges
  -- the counter is outside every footprint
  exact ⟨hchanges.bit_eq, hchanges.vector_eq, hchanges.flag_eq, hchanges.byte_eq⟩

theorem valid_execute {m m' : Machine} {i : Instruction} (hm : m.valid = true) (h : m.execute i = .ok m') :
    m'.valid = true ∧ m'.capacity = m.capacity :=
  ⟨valid_iff.2 (keptByWrites_inRange.execute h (valid_iff.1 hm)), (KeptByWrites.capacity m.capacity).execute h rfl⟩

theorem frame_of_execute {m m' : Machine} {i : Instruction} (hm : m.valid = true)
    (hi : ∀ o l, ¬ (i.mnemonic = .xchg ∧ i.operands = [o, .memory l])) (h : m.execute i = .ok m') :
    m'.rip = (m.rip + 1) % 2 ^ 64 ∧ m'.valid = true ∧ m'.capacity = m.capacity ∧
      m.ChangesOnly (i.footprint m) m' := by
  have hrip := rip_execute h
  obtain ⟨hvalid, hcapacity⟩ := valid_execute hm h
  exact ⟨hrip, hvalid, hcapacity, changesOnly_execute hi h⟩

/-- A pop to the top of the stack stores in the bytes above those that it reads. -/
theorem frame_of_execute_pop : ((fresh 32).writeView .rsp 8).valid = true ∧
    ∃ m', ((fresh 32).writeView .rsp 8).execute ⟨.pop, [.memory ⟨⟨some .rsp, none, .one, 0⟩, .qword⟩]⟩ = .ok m' ∧
      m'.rip = 1 ∧ m'.capacity = 32 ∧
      ((fresh 32).writeView .rsp 8).ChangesOnly { views := [.rsp], spans := [⟨16, 8⟩] } m' := by
  have hm : ((fresh 32).writeView .rsp 8).valid = true := by decide
  obtain ⟨m', h⟩ : ∃ m', ((fresh 32).writeView .rsp 8).execute
      ⟨.pop, [.memory ⟨⟨some .rsp, none, .one, 0⟩, .qword⟩]⟩ = .ok m' := ⟨_, by rfl⟩
  obtain ⟨hrip, -, hcapacity, hchanges⟩ := frame_of_execute hm (fun _ _ hx => absurd hx.1 (by decide)) h
  exact ⟨hm, m', h, hrip, hcapacity, hchanges⟩

end Machine

end LongMode

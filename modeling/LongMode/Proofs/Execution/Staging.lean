import LongMode.Execution.Result
import LongMode.Machine.Integrity
import LongMode.Proofs.Outcome
import LongMode.Proofs.Register.Name

/-!
# Staged and direct access

What an instruction does to registers, flags and memory is a sequence of accesses.  Performed through a transaction and
performed on the machine itself, they come to the same.

* `perform_result`: one access has the same outcome on a transaction as on the machine that it results in, and leads
  from the one to the other.
* `performAll_result`: so has a sequence of accesses, whichever of them are refused.
* `commit_performAll`: a transaction that starts on a machine answers like the machine, leaves it alone until the end,
  and commits the state that direct access reaches, with one more instruction counted.
-/

namespace LongMode

/-- A text that names a view, in any letter case. -/
structure ViewName where
  text : String
  view : View
  spelled : View.ofName? text.toList = some view

/-- A text that names a vector register, in any letter case. -/
structure VectorName where
  text : String
  register : VectorRegister
  spelled : VectorRegister.ofName? text.toList = some register

/-- One read or write. -/
inductive Access
  | readRegister (name : ViewName)
  | writeRegister (name : ViewName) (value : Int)
  | readVector (name : VectorName)
  | writeVector (name : VectorName) (value : Int)
  | readFlag (flag : Flag)
  | setFlags (effect : FlagEffect)
  | readMemory (address : Int) (size : Nat)
  | writeMemory (address : Int) (size : Nat) (value : Int)

/-- What an access returns. -/
inductive Answer
  | number (n : Nat)
  | truth (b : Bool)
  | done
  deriving DecidableEq, Repr

/-- Why an access returns nothing. -/
inductive AccessError
  | unknownRegister (error : UnknownRegister)
  | outOfBounds (access : OutOfBounds)
  deriving DecidableEq, Repr

/-- The outcome of a write with the state after it: a write that is refused changes nothing. -/
def settle {ε σ : Type} (wrap : ε → AccessError) (before : σ) : Except ε σ → Except AccessError Answer × σ
  | .ok after => (.ok .done, after)
  | .error e => (.error (wrap e), before)

/-- One access after the other, from a state on; a refused access does not stop the ones after it. -/
def performAll {σ : Type} (perform : σ → Access → Except AccessError Answer × σ) (s : σ) :
    List Access → List (Except AccessError Answer) × σ
  | [] => ([], s)
  | a :: rest =>
    let (outcome, s') := perform s a
    let (outcomes, s'') := performAll perform s' rest
    (outcome :: outcomes, s'')

/-! ### Direct access -/

namespace Machine

/-- Stores a flag if an effect defines it. -/
def storeFlag (m : Machine) (e : FlagEffect) (f : Flag) : Machine := ((e.get f).map (m.setFlag f)).getD m

/-- Stores the flags that an effect defines, one after the other. -/
def storeFlags (m : Machine) (e : FlagEffect) : Machine := Flag.all.foldl (fun m f => m.storeFlag e f) m

theorem readNamed_view (m : Machine) (name : ViewName) : m.readNamed name.text = .ok (m.readView name.view) := by
  rw [readNamed, RegisterName.find_view name.spelled]
  rfl

theorem writeNamed_view (m : Machine) (name : ViewName) (value : Int) :
    m.writeNamed name.text value = .ok (m.writeView name.view value) := by
  rw [writeNamed, RegisterName.find_view name.spelled]
  rfl

theorem readNamed_vector (m : Machine) (name : VectorName) :
    m.readNamed name.text = .ok (m.readVector name.register) := by
  rw [readNamed, RegisterName.find_vector name.spelled]
  rfl

theorem writeNamed_vector (m : Machine) (name : VectorName) (value : Int) :
    m.writeNamed name.text value = .ok (m.writeVector name.register value) := by
  rw [writeNamed, RegisterName.find_vector name.spelled]
  rfl

def perform (m : Machine) : Access → Except AccessError Answer × Machine
  | .readRegister name => (((m.readNamed name.text).mapError .unknownRegister).map .number, m)
  | .writeRegister name value => settle .unknownRegister m (m.writeNamed name.text value)
  | .readVector name => (((m.readNamed name.text).mapError .unknownRegister).map .number, m)
  | .writeVector name value => settle .unknownRegister m (m.writeNamed name.text value)
  | .readFlag f => (.ok (.truth (m.flags.get f)), m)
  | .setFlags e => (.ok .done, m.storeFlags e)
  | .readMemory address size => (((m.readInteger address size).mapError .outOfBounds).map .number, m)
  | .writeMemory address size value => settle .outOfBounds m (m.writeInteger address size value)

private theorem storeFlag_eq (m : Machine) (e : FlagEffect) (f : Flag) :
    ∃ flags, m.storeFlag e f = { m with flags } ∧
      ∀ g, flags.get g = if f = g then (e.get g).getD (m.flags.get g) else m.flags.get g := by
  cases he : e.get f with
  | none => exact ⟨m.flags, by simp [storeFlag, he], fun g => by split <;> simp_all⟩
  | some b => exact ⟨m.flags.set f b, by simp [storeFlag, he, setFlag], fun g => by split <;> simp_all⟩

private theorem foldl_storeFlag (m : Machine) (e : FlagEffect) (fs : List Flag) :
    ∃ flags, fs.foldl (fun m f => m.storeFlag e f) m = { m with flags } ∧
      ∀ g, flags.get g = if g ∈ fs then (e.get g).getD (m.flags.get g) else m.flags.get g := by
  induction fs generalizing m with
  | nil => exact ⟨m.flags, rfl, by simp⟩
  | cons f fs ih =>
    obtain ⟨flags, hm, hf⟩ := storeFlag_eq m e f
    obtain ⟨flags', hm', hf'⟩ := ih { m with flags }
    refine ⟨flags', by rw [List.foldl_cons, hm, hm'], fun g => ?_⟩
    rw [hf' g, hf g]
    by_cases hfg : f = g
    · subst hfg
      cases e.get f <;> simp
    · simp [hfg, Ne.symm hfg]

theorem storeFlags_eq (m : Machine) (e : FlagEffect) : m.storeFlags e = { m with flags := e.apply m.flags } := by
  obtain ⟨flags, hm, hf⟩ := foldl_storeFlag m e Flag.all
  have hall : ∀ g, g ∈ Flag.all := fun g => by cases g <;> decide
  rw [storeFlags, hm]
  congr 1
  ext g
  rw [hf g, if_pos (hall g), FlagEffect.get_apply]

theorem size_eq_capacity {m : Machine} (h : m.valid = true) : m.memory.size = m.capacity := by
  simp only [valid, StoredMachine.valid, Bool.and_eq_true, beq_iff_eq, stored] at h
  exact_mod_cast h.2

end Machine

/-! ### Staged access -/

namespace Transaction

def perform (t : Transaction) : Access → Except AccessError Answer × Transaction
  | .readRegister name => (.ok (.number (t.readView name.view)), t)
  | .writeRegister name value => (.ok .done, t.writeView name.view value)
  | .readVector name => (.ok (.number (t.readVector name.register)), t)
  | .writeVector name value => (.ok .done, t.writeVector name.register value)
  | .readFlag f => (.ok (.truth (t.flag f)), t)
  | .setFlags e => (.ok .done, t.setFlags e)
  | .readMemory address size => (((t.readInteger address size).mapError .outOfBounds).map .number, t)
  | .writeMemory address size value => settle .outOfBounds t (t.writeInteger address size value)

/-- Nothing reaches the machine of a transaction. -/
theorem machine_perform (t : Transaction) (a : Access) : (t.perform a).2.machine = t.machine := by
  cases a with
  | writeMemory address size value =>
    rw [perform, writeInteger]
    split <;> rfl
  | readRegister name => rfl
  | writeRegister name value => rfl
  | readVector name => rfl
  | writeVector name value => rfl
  | readFlag f => rfl
  | setFlags e => rfl
  | readMemory address size => rfl

theorem perform_result (t : Transaction) (h : t.machine.memory.size = t.machine.capacity) (a : Access) :
    t.result.perform a = ((t.perform a).1, (t.perform a).2.result) := by
  cases a with
  | readRegister name =>
    rw [Machine.perform, Machine.readNamed_view, readView_result]
    rfl
  | writeRegister name value =>
    rw [Machine.perform, Machine.writeNamed_view, ← result_writeView]
    rfl
  | readVector name =>
    rw [Machine.perform, Machine.readNamed_vector, readVector_result]
    rfl
  | writeVector name value =>
    rw [Machine.perform, Machine.writeNamed_vector, ← result_writeVector]
    rfl
  | readFlag f => simp only [Machine.perform, perform, flag_result]
  | setFlags e => simp only [Machine.perform, perform, Machine.storeFlags_eq, result_setFlags]
  | readMemory address size => simp only [Machine.perform, perform, t.readInteger_result h]
  | writeMemory address size value =>
    rw [Machine.perform, ← t.result_writeInteger, perform]
    cases t.writeInteger address size value <;> rfl

theorem machine_performAll (t : Transaction) (accesses : List Access) :
    (performAll perform t accesses).2.machine = t.machine := by
  induction accesses generalizing t with
  | nil => rfl
  | cons a rest ih => exact (ih (t.perform a).2).trans (t.machine_perform a)

theorem performAll_result (t : Transaction) (h : t.machine.memory.size = t.machine.capacity)
    (accesses : List Access) : performAll Machine.perform t.result accesses =
      ((performAll perform t accesses).1, (performAll perform t accesses).2.result) := by
  induction accesses generalizing t with
  | nil => rfl
  | cons a rest ih =>
    -- the machine behind the transaction is still the same one, so the hypothesis on its memory holds again
    have hm := t.machine_perform a
    have hrest := ih (t.perform a).2 (by rw [hm]; exact h)
    simp only [performAll, t.perform_result h a, hrest]

/-- Staging is transparent. -/
theorem commit_performAll {m : Machine} (h : m.valid = true) (accesses : List Access) :
    (performAll perform (start m) accesses).1 = (performAll Machine.perform m accesses).1 ∧
      (performAll perform (start m) accesses).2.machine = m ∧
      (performAll perform (start m) accesses).2.commit =
        { (performAll Machine.perform m accesses).2 with rip := (m.rip + 1) % 2 ^ 64 } := by
  have hrun := (start m).performAll_result (Machine.size_eq_capacity h) accesses
  have hmachine := (start m).machine_performAll accesses
  rw [result_start] at hrun
  refine ⟨by rw [hrun], hmachine, ?_⟩
  rw [hrun, commit, Machine.advance]
  -- the counter of the result is that of the machine that the transaction started on
  have hrip : (performAll perform (start m) accesses).2.result.rip = m.rip := by
    rw [result, hmachine]
    rfl
  rw [hrip]

/-- Writes to two views of one cell, a read through a third, and an access beyond memory. -/
theorem commit_performAll_aliases : (Machine.fresh 16).valid = true ∧
    (performAll perform (start (Machine.fresh 16))
      [.writeRegister ⟨"RAX", .low .rax .qword, rfl⟩ (-1), .writeRegister ⟨"ah", .high .ah, rfl⟩ 0,
        .readRegister ⟨"eax", .low .rax .dword, rfl⟩, .writeMemory 14 4 1]).1 =
      [.ok .done, .ok .done, .ok (.number 0xFFFF00FF), .error (.outOfBounds ⟨14, 4, 16⟩)] :=
  ⟨by decide, (commit_performAll (by decide) _).1.trans (by rfl)⟩

end Transaction

end LongMode

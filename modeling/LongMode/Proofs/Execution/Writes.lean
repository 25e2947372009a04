import LongMode.Execution.Result
import LongMode.Proofs.Execution.Refusal

/-!
# What an operation does to its transaction

Whatever an operation computes, it changes the transaction through four kinds of writes only: to a view, to a vector
register, to flags, and to a range inside memory.

* `Writes t u`: the transaction `u` is `t` after some writes.
* `run_writes`: an operation that does not stop has only written, for the same machine (`Writes.machine_eq`) and only
  to addresses that the machine has (`Writes.staged_lt`).
* `Machine.KeptByWrites`: a property of machines that every write keeps.  It holds of the machine that an instruction
  leads to if it holds before (`KeptByWrites.execute`).
-/

namespace LongMode

namespace Transaction

/-- The second transaction is the first after any number of writes. -/
inductive Writes (t : Transaction) : Transaction → Prop
  | nothing : Writes t t
  | view {u : Transaction} (h : Writes t u) (v : View) (value : Int) : Writes t (u.writeView v value)
  | vector {u : Transaction} (h : Writes t u) (x : VectorRegister) (value : Int) : Writes t (u.writeVector x value)
  | flags {u : Transaction} (h : Writes t u) (e : FlagEffect) : Writes t (u.setFlags e)
  | memory {u u' : Transaction} (h : Writes t u) {address : Int} {size : Nat} {value : Int}
      (hw : u.writeInteger address size value = .ok u') : Writes t u'

variable {t u : Transaction}

theorem Writes.place (h : Writes t u) {p : Place} {value : Int} {u' : Transaction} (hw : u.write p value = .ok u') :
    Writes t u' := by
  cases p with
  | register v =>
    cases hw
    exact h.view v value
  | memory l => exact h.memory (mapError_eq_ok.1 hw)

theorem Writes.finish (h : Writes t u) {p : Place} {r : Flagged} {u' : Transaction} (hw : u.finish p r = .ok u') :
    Writes t u' := by
  obtain ⟨u₁, h₁, hw⟩ := bind_eq_ok.1 hw
  cases hw
  exact (h.place h₁).flags r.flags

theorem Writes.halves (h : Writes t u) (w : Width) (high low : Nat) : Writes t (u.writeHalves w high low) := by
  unfold writeHalves
  split
  · exact h.view _ _
  · exact (h.view _ _).view _ _

private theorem update_writes {p : Place} {f : Nat → Flagged} (h : t.update p f = .ok u) : Writes t u := by
  obtain ⟨a, -, h⟩ := bind_eq_ok.1 h
  exact Writes.nothing.finish h

private theorem multiplyHalves_writes {p : Place} {f : Nat → Nat → Nat → Product} (h : t.multiplyHalves p f = .ok u) :
    Writes t u := by
  obtain ⟨a, -, h⟩ := bind_eq_ok.1 h
  cases h
  exact (Writes.nothing.halves _ _ _).flags _

private theorem divideHalves_writes {p : Place} {f : Nat → Nat → Nat → Division} (h : t.divideHalves p f = .ok u) :
    Writes t u := by
  obtain ⟨d, -, h⟩ := bind_eq_ok.1 h
  split at h
  · cases h
  · dsimp only at h
    split at h
    · cases h
    · cases h
      exact Writes.nothing.halves _ _ _

private theorem moveBits_writes {p : Place} {count : Source} {f : Nat → Nat → Nat → Flagged}
    (h : t.moveBits p count f = .ok u) : Writes t u := by
  obtain ⟨a, -, h⟩ := bind_eq_ok.1 h
  obtain ⟨n, -, h⟩ := bind_eq_ok.1 h
  split at h
  · cases p with
    | register v =>
      dsimp only at h
      split at h <;> cases h
      · exact Writes.nothing.view v _
      · exact .nothing
    | memory l =>
      cases h
      exact .nothing
  · exact Writes.nothing.finish h

theorem run_writes {op : Operation} (h : op.run t = .ok u) : Writes t u := by
  cases op with
  | nothing =>
    cases h
    exact .nothing
  | move d s =>
    obtain ⟨a, -, h⟩ := bind_eq_ok.1 h
    exact Writes.nothing.place h
  | extend d s | extendSigned d s =>
    obtain ⟨a, -, h⟩ := bind_eq_ok.1 h
    cases h
    exact Writes.nothing.view _ _
  | loadAddress d a =>
    cases h
    exact Writes.nothing.view _ _
  | exchange p q =>
    obtain ⟨a, -, h⟩ := bind_eq_ok.1 h
    obtain ⟨b, -, h⟩ := bind_eq_ok.1 h
    obtain ⟨u₁, h₁, h⟩ := bind_eq_ok.1 h
    exact (Writes.nothing.place h₁).place h
  | push s =>
    obtain ⟨a, -, h⟩ := bind_eq_ok.1 h
    obtain ⟨u₁, h₁, h⟩ := bind_eq_ok.1 h
    cases h
    exact (Writes.nothing.memory (mapError_eq_ok.1 h₁)).view _ _
  | pop d =>
    obtain ⟨a, -, h⟩ := bind_eq_ok.1 h
    exact (Writes.nothing.view _ _).place h
  | moveIf zero d s =>
    obtain ⟨a, -, h⟩ := bind_eq_ok.1 h
    split at h
    · cases h
      exact Writes.nothing.view _ _
    · split at h <;> cases h
      · exact Writes.nothing.view _ _
      · exact .nothing
  | spreadSign w =>
    cases h
    exact Writes.nothing.view _ _
  | add _ d s | subtract _ d s | bitwise _ d s =>
    obtain ⟨a, -, h⟩ := bind_eq_ok.1 h
    obtain ⟨b, -, h⟩ := bind_eq_ok.1 h
    exact Writes.nothing.finish h
  | compare d s | test d s =>
    obtain ⟨a, -, h⟩ := bind_eq_ok.1 h
    obtain ⟨b, -, h⟩ := bind_eq_ok.1 h
    cases h
    exact Writes.nothing.flags _
  | increment d | decrement d | negate d | complement d => exact update_writes h
  | multiply s | multiplySigned s => exact multiplyHalves_writes h
  | multiplyInto d s r =>
    obtain ⟨a, -, h⟩ := bind_eq_ok.1 h
    obtain ⟨b, -, h⟩ := bind_eq_ok.1 h
    cases h
    exact (Writes.nothing.view _ _).flags _
  | divide s | divideSigned s => exact divideHalves_writes h
  | shift k d c | rotate k d c => exact moveBits_writes h
  | scan k d s =>
    obtain ⟨a, -, h⟩ := bind_eq_ok.1 h
    split at h <;> cases h
    · exact Writes.nothing.flags _
    · exact (Writes.nothing.view _ _).flags _
  | addPacked d s =>
    cases h
    exact Writes.nothing.vector _ _

theorem writeInteger_eq_ok {address : Int} {size : Nat} {value : Int} :
    t.writeInteger address size value = .ok u ↔ t.machine.Covers address size ∧
      u = { t with memory := storeBytes address.toNat t.memory (littleEndian size (truncate (8 * size) value)) } := by
  unfold writeInteger
  split
  · rename_i hc
    exact ⟨fun h => ⟨hc, (Except.ok.inj h).symm⟩, fun h => congrArg Except.ok h.2.symm⟩
  · rename_i hc
    exact ⟨nofun, fun h => absurd h.1 hc⟩

theorem Writes.machine_eq (h : Writes t u) : u.machine = t.machine := by
  induction h with
  | nothing => rfl
  | view _ v value ih => exact ih
  | vector _ x value ih => exact ih
  | flags _ e ih => exact ih
  | memory _ hw ih =>
    obtain ⟨-, rfl⟩ := writeInteger_eq_ok.1 hw
    exact ih

private theorem storeBytes_lt {bound : Nat} {written : List (Nat × UInt8)} (h : ∀ p ∈ written, p.1 < bound) {a : Nat}
    {bytes : List UInt8} (ha : a + bytes.length ≤ bound) : ∀ p ∈ storeBytes a written bytes, p.1 < bound := by
  induction bytes generalizing a written with
  | nil => exact h
  | cons b rest ih =>
    rw [List.length_cons] at ha
    refine ih (List.forall_mem_cons.2 ⟨?_, h⟩) (by omega)
    show a < bound
    omega

theorem Writes.staged_lt (h : Writes t u) (ht : ∀ p ∈ t.memory, p.1 < t.machine.capacity) :
    ∀ p ∈ u.memory, p.1 < t.machine.capacity := by
  induction h with
  | nothing => exact ht
  | view _ v value ih => exact ih
  | vector _ x value ih => exact ih
  | flags _ e ih => exact ih
  | @memory u u' h address size value hw ih =>
    obtain ⟨hc, rfl⟩ := writeInteger_eq_ok.1 hw
    rw [h.machine_eq] at hc
    have hnonneg := hc.1
    have hend := hc.2.2
    refine storeBytes_lt ih ?_
    rw [length_littleEndian]
    omega

end Transaction

namespace Machine

/-- A property of machines that every write keeps, and the end of an instruction too. -/
structure KeptByWrites (P : Machine → Prop) : Prop where
  view : ∀ m v value, P m → P (m.writeView v value)
  vector : ∀ m x value, P m → P (m.writeVector x value)
  flags : ∀ m flags, P m → P { m with flags }
  memory : ∀ m address bytes, m.Covers address bytes.length → P m →
    P { m with memory := m.memory.store address.toNat bytes }
  advance : ∀ m, P m → P m.advance

namespace KeptByWrites

variable {P Q : Machine → Prop}

theorem and (hP : KeptByWrites P) (hQ : KeptByWrites Q) : KeptByWrites fun m => P m ∧ Q m where
  view m v value h := ⟨hP.view m v value h.1, hQ.view m v value h.2⟩
  vector m x value h := ⟨hP.vector m x value h.1, hQ.vector m x value h.2⟩
  flags m flags h := ⟨hP.flags m flags h.1, hQ.flags m flags h.2⟩
  memory m address bytes hc h := ⟨hP.memory m address bytes hc h.1, hQ.memory m address bytes hc h.2⟩
  advance m h := ⟨hP.advance m h.1, hQ.advance m h.2⟩

/-- Nothing that is written changes the capacity. -/
theorem capacity (n : Nat) : KeptByWrites fun m => m.capacity = n :=
  ⟨fun _ _ _ h => h, fun _ _ _ h => h, fun _ _ h => h, fun _ _ _ _ h => h, fun _ h => h⟩

theorem writeInteger (hP : KeptByWrites P) {m m' : Machine} {address : Int} {size : Nat} {value : Int}
    (h : m.writeInteger address size value = .ok m') (hm : P m) : P m' := by
  unfold Machine.writeInteger at h
  split at h
  · rename_i hc
    cases h
    exact hP.memory m address _ (by simpa using hc) hm
  · cases h

theorem result (hP : KeptByWrites P) {t u : Transaction} (h : t.Writes u) (ht : P t.result) : P u.result := by
  induction h with
  | nothing => exact ht
  | view _ v value ih =>
    rw [Transaction.result_writeView]
    exact hP.view _ v value ih
  | vector _ x value ih =>
    rw [Transaction.result_writeVector]
    exact hP.vector _ x value ih
  | flags _ e ih =>
    rw [Transaction.result_setFlags]
    exact hP.flags _ _ ih
  | @memory u u' _ address size value hw ih =>
    have hr := u.result_writeInteger address size value
    rw [hw] at hr
    exact hP.writeInteger hr.symm ih

theorem execute (hP : KeptByWrites P) {m m' : Machine} {i : Instruction} (h : m.execute i = .ok m') (hm : P m) :
    P m' := by
  obtain ⟨op, t, -, hrun, rfl⟩ := execute_eq_ok h
  exact hP.advance _ (hP.result (Transaction.run_writes hrun) hm)

end KeptByWrites

end Machine

end LongMode

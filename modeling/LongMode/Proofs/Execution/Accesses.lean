import LongMode.Proofs.Execution.Footprint

/-!
# Accesses to memory

Which bytes an operation needs, and that it stops for lack of them only.

* `Span.Inside`: the bytes of a span are in memory.  Addresses are numbers here, so a span does not wrap around.
* `Operation.accesses`: the spans that an operation reads or writes, whether it uses what it reads or not.
* `Guarded`: a computation gives a result where a condition holds, and ends outside memory where it does not.  A
  sequence is guarded by the conditions of its steps (`Guarded.bind`).
* `run_guarded`: an operation is guarded by its accesses.  Divisions are left out, because they stop for other reasons
  too, and exchanges with a second operand in memory, whose second address depends on the first write.
-/

namespace LongMode

/-- The bytes of the span are in memory. -/
def Span.Inside (m : Machine) (s : Span) : Prop := s.address + s.length ≤ m.capacity

instance (m : Machine) (s : Span) : Decidable (s.Inside m) := inferInstanceAs (Decidable (_ ≤ _))

/-- The bytes of all spans are in memory. -/
def Machine.Reaches (m : Machine) (spans : List Span) : Prop := ∀ s ∈ spans, s.Inside m

namespace Machine

variable {m : Machine}

theorem reaches_nil : m.Reaches [] := fun _ hs => absurd hs List.not_mem_nil

theorem reaches_append {a b : List Span} : m.Reaches (a ++ b) ↔ m.Reaches a ∧ m.Reaches b := List.forall_mem_append

theorem reaches_cons {s : Span} {a : List Span} : m.Reaches (s :: a) ↔ s.Inside m ∧ m.Reaches a := List.forall_mem_cons

theorem covers_iff_inside {address length : Nat} : m.Covers address length ↔ (Span.mk address length).Inside m := by
  unfold Covers Span.Inside
  dsimp only
  omega

end Machine

/-- The spans that an operation reads or writes. -/
def Operation.accesses (m : Machine) : Operation → List Span
  | nothing | loadAddress _ _ | spreadSign _ | addPacked _ _ => []
  | move d s | add _ d s | subtract _ d s | compare d s | bitwise _ d s | test d s =>
    d.operand.spans m ++ s.operand.spans m
  | shift _ d c | rotate _ d c => d.operand.spans m ++ c.operand.spans m
  | extend _ s | extendSigned _ s | moveIf _ _ s | scan _ _ s => s.operand.spans m
  | increment p | decrement p | negate p | complement p => p.operand.spans m
  | multiply p | multiplySigned p | divide p | divideSigned p => p.operand.spans m
  | multiplyInto _ a b => a.operand.spans m ++ b.operand.spans m
  | exchange p q => p.operand.spans m ++ q.operand.spans m
  | push s => s.operand.spans m ++ [m.belowStack]
  | pop p => ⟨m.readView .rsp, 8⟩ :: p.operand.spans m.popped

/-! ### Guarded computations -/

/-- The computation gives a result if the condition holds, and ends with an access outside memory if it does not. -/
def Guarded {α : Type} (P : Prop) : Except Stop α → Prop
  | .ok _ => P
  | .error (.outOfBounds _) => ¬ P
  | .error _ => False

namespace Guarded

variable {α β : Type} {P Q : Prop} {x : Except Stop α}

theorem pure (a : α) (h : P) : Guarded P (.ok a) := h

theorem congr (h : Guarded P x) (hPQ : P ↔ Q) : Guarded Q x := propext hPQ ▸ h

/-- If the condition of the whole contains that of the first step, the first step may stop for it; otherwise the rest
has to answer for what is left of it. -/
theorem bind {f : α → Except Stop β} (hx : Guarded P x) (hQP : Q → P) (hf : ∀ a, P → Guarded Q (f a)) :
    Guarded Q (x >>= f) := by
  match x, hx with
  | .ok a, (h : P) => exact hf a h
  | .error (.outOfBounds _), (h : ¬ P) => exact fun hQ => h (hQP hQ)

/-- After a step that cannot be left out, only the rest matters. -/
theorem andThen {f : α → Except Stop β} (hx : Guarded P x) (hf : ∀ a, P → Guarded Q (f a)) :
    Guarded (P ∧ Q) (x >>= f) :=
  hx.bind And.left fun a hP => (hf a hP).congr ⟨fun hQ => ⟨hP, hQ⟩, And.right⟩

end Guarded

namespace Transaction

variable (t : Transaction)

theorem guarded_readInteger (address size : Nat) :
    Guarded ((Span.mk address size).Inside t.result) ((t.readInteger address size).mapError .outOfBounds) := by
  unfold readInteger
  split
  · rename_i h
    exact Machine.covers_iff_inside.1 h
  · rename_i h
    exact fun hs => h (Machine.covers_iff_inside.2 hs)

theorem guarded_writeInteger (address size : Nat) (value : Int) :
    Guarded ((Span.mk address size).Inside t.result) ((t.writeInteger address size value).mapError .outOfBounds) := by
  unfold writeInteger
  split
  · rename_i h
    exact Machine.covers_iff_inside.1 h
  · rename_i h
    exact fun hs => h (Machine.covers_iff_inside.2 hs)

theorem guarded_read (s : Source) : Guarded (t.result.Reaches (s.operand.spans t.result)) (t.read s) := by
  cases s with
  | register v => exact Machine.reaches_nil
  | immediate z n => exact Machine.reaches_nil
  | memory l =>
    refine Guarded.congr ?_ List.forall_mem_singleton.symm
    rw [Location.span, effectiveAddress_result]
    exact t.guarded_readInteger (t.effectiveAddress l.address) l.width.bytes

theorem guarded_readPlace (p : Place) :
    Guarded (t.result.Reaches (p.operand.spans t.result)) (t.readPlace p) := by
  have h := t.guarded_read p.source
  cases p <;> exact h

theorem guarded_write (p : Place) (value : Int) :
    Guarded (t.result.Reaches (p.operand.spans t.result)) (t.write p value) := by
  cases p with
  | register v => exact Machine.reaches_nil
  | memory l =>
    refine Guarded.congr ?_ List.forall_mem_singleton.symm
    rw [Location.span, effectiveAddress_result]
    exact t.guarded_writeInteger (t.effectiveAddress l.address) l.width.bytes value

theorem guarded_finish (p : Place) (r : Flagged) :
    Guarded (t.result.Reaches (p.operand.spans t.result)) (t.finish p r) :=
  (t.guarded_write p r.value).bind id fun _ h => .pure _ h

theorem guarded_update (p : Place) (f : Nat → Flagged) :
    Guarded (t.result.Reaches (p.operand.spans t.result)) (t.update p f) :=
  (t.guarded_readPlace p).bind id fun a _ => t.guarded_finish p (f a)

theorem guarded_multiplyHalves (p : Place) (f : Nat → Nat → Nat → Product) :
    Guarded (t.result.Reaches (p.operand.spans t.result)) (t.multiplyHalves p f) :=
  (t.guarded_readPlace p).bind id fun _ h => .pure _ h

/-- Also a count of zero needs the location. -/
theorem guarded_moveBits (p : Place) (c : Source) (f : Nat → Nat → Nat → Flagged) :
    Guarded (t.result.Reaches (p.operand.spans t.result ++ c.operand.spans t.result)) (t.moveBits p c f) := by
  refine Guarded.congr ?_ Machine.reaches_append.symm
  refine (t.guarded_readPlace p).andThen fun value hp => ?_
  refine (t.guarded_read c).bind id fun n hc => ?_
  split
  · cases p with
    | register v =>
      dsimp only
      split
      · exact .pure _ hc
      · exact .pure _ hc
    | memory l => exact .pure _ hc
  · exact (t.guarded_finish p _).congr ⟨fun _ => hc, fun _ => hp⟩

end Transaction

open Transaction in
/-- An operation needs its accesses to be in memory, and nothing else. -/
theorem Operation.run_guarded {op : Operation} (hexchange : ∀ p l, op ≠ .exchange p (.memory l))
    (hdivide : ∀ p, op ≠ .divide p ∧ op ≠ .divideSigned p) (t : Transaction) :
    Guarded (t.result.Reaches (op.accesses t.result)) (op.run t) := by
  cases op with
  | nothing | loadAddress d a | spreadSign w | addPacked d s => exact Machine.reaches_nil
  | move d s =>
    refine Guarded.congr ?_ (and_comm.trans Machine.reaches_append.symm)
    exact (t.guarded_read s).andThen fun a _ => t.guarded_write d a
  | extend d s | extendSigned d s => exact (t.guarded_readPlace s).bind id fun a h => .pure _ h
  | exchange p q =>
    refine Guarded.congr ?_ Machine.reaches_append.symm
    refine (t.guarded_readPlace p).andThen fun a hp => (t.guarded_readPlace q).bind id fun b hq => ?_
    refine (t.guarded_write p b).bind (fun _ => hp) fun u _ => ?_
    cases q with
    | register v => exact .pure _ hq
    | memory l => exact absurd rfl (hexchange p l)
  | push s =>
    refine Guarded.congr ?_ Machine.reaches_append.symm
    refine (t.guarded_read s).andThen fun a _ => ?_
    refine Guarded.congr ?_ List.forall_mem_singleton.symm
    rw [Machine.belowStack, readView_result]
    exact (t.guarded_writeInteger (truncate 64 ((t.readView .rsp : Int) - 8)) 8 a).bind id fun u h => .pure _ h
  | pop d =>
    have hraised : (t.writeView .rsp (t.readView .rsp + 8)).result = t.result.popped := by
      rw [result_writeView, Machine.popped, readView_result]
    refine Guarded.congr ?_ Machine.reaches_cons.symm
    rw [readView_result, ← hraised]
    refine (t.guarded_readInteger (t.readView .rsp) 8).andThen fun a _ => ?_
    exact (t.writeView .rsp (t.readView .rsp + 8)).guarded_write d a
  | moveIf zero d s =>
    refine (t.guarded_readPlace s).bind id fun a h => ?_
    split
    · exact .pure _ h
    · split
      · exact .pure _ h
      · exact .pure _ h
  | add c d s | subtract c d s | bitwise c d s =>
    refine Guarded.congr ?_ Machine.reaches_append.symm
    refine (t.guarded_readPlace d).andThen fun a hd => (t.guarded_read s).bind id fun b hs => ?_
    exact (t.guarded_finish d _).congr ⟨fun _ => hs, fun _ => hd⟩
  | compare d s | test d s =>
    refine Guarded.congr ?_ Machine.reaches_append.symm
    exact (t.guarded_readPlace d).andThen fun a _ => (t.guarded_read s).bind id fun b h => .pure _ h
  | increment d | decrement d | negate d | complement d => exact t.guarded_update d _
  | multiply s | multiplySigned s => exact t.guarded_multiplyHalves s _
  | multiplyInto d s r =>
    refine Guarded.congr ?_ Machine.reaches_append.symm
    exact (t.guarded_read s).andThen fun a _ => (t.guarded_read r).bind id fun b h => .pure _ h
  | divide s => exact absurd rfl (hdivide s).1
  | divideSigned s => exact absurd rfl (hdivide s).2
  | shift k d c | rotate k d c => exact t.guarded_moveBits d c _
  | scan k d s =>
    refine (t.guarded_readPlace s).bind id fun a h => ?_
    split
    · exact .pure _ h
    · exact .pure _ h

end LongMode

import LongMode.Proofs.Execution.Writes
import LongMode.Proofs.Machine.Number
import LongMode.Proofs.MachineCode.Checks
import LongMode.Proofs.Register.Bits

/-!
# Footprints

Where an operation may leave a machine changed: views, vector registers, flags, and spans of memory.

* `Machine.ChangesOnly`: two machines agree everywhere outside a footprint.  It is kept by every write inside the
  footprint (`ChangesOnly.view`, `vector`, `flags`, `place`, `finish`).
* `Operation.footprint`: the footprint of each operation, on the machine that it starts from.
* `Operation.run_changesOnly`: an operation that does not stop has changed nothing outside its footprint.  An exchange
  whose second operand lies in memory is left out: its second address is computed after its first write.
-/

namespace LongMode

/-- Consecutive addresses in memory. -/
structure Span where
  address : Nat
  length : Nat
  deriving DecidableEq, Repr

def Span.Contains (s : Span) (a : Nat) : Prop := s.address ≤ a ∧ a < s.address + s.length

instance (s : Span) (a : Nat) : Decidable (s.Contains a) := inferInstanceAs (Decidable (_ ∧ _))

/-- The first span is a part of the second. -/
def Span.Within (s s' : Span) : Prop := s'.address ≤ s.address ∧ s.address + s.length ≤ s'.address + s'.length

theorem Span.Within.refl (s : Span) : s.Within s := ⟨Nat.le_refl _, Nat.le_refl _⟩

/-- The sum of an address modulo `2 ^ 64`, with the registers of a machine. -/
def Machine.effectiveAddress (m : Machine) (a : Address) : Nat :=
  let base : Nat := (a.base.map m.cell).getD 0
  let index : Nat := (a.index.map fun c => m.cell c * a.scale.factor).getD 0
  truncate 64 (a.displacement + base + index)

/-- The cells that an address goes through. -/
def Address.cells (a : Address) : List Cell := a.base.toList ++ a.index.toList

/-- The bytes of a location on a machine. -/
def Location.span (m : Machine) (l : Location) : Span := ⟨m.effectiveAddress l.address, l.width.bytes⟩

/-- The stack pointer. -/
def View.rsp : View := .low .rsp .qword

/-- The eight bytes below the stack pointer, where a push stores. -/
def Machine.belowStack (m : Machine) : Span := ⟨truncate 64 ((m.readView .rsp : Int) - 8), 8⟩

/-- The machine with its stack pointer eight bytes higher, on which the destination of a pop is addressed. -/
def Machine.popped (m : Machine) : Machine := m.writeView .rsp ((m.readView .rsp : Int) + 8)

/-- Where a machine may be changed. -/
structure Footprint where
  views : List View := []
  vectors : List VectorRegister := []
  flags : List Flag := []
  spans : List Span := []
  deriving DecidableEq, Repr

/-- The machines differ inside the footprint only: in bits of cells that one of its views writes, in its vector
registers and flags, and in bytes of its spans. -/
structure Machine.ChangesOnly (m : Machine) (p : Footprint) (m' : Machine) : Prop where
  bit_eq : ∀ c k, k < 64 → (∀ v ∈ p.views, v.cell = c → ¬ v.Writes k) → (m'.cell c).testBit k = (m.cell c).testBit k
  vector_eq : ∀ x, x ∉ p.vectors → m'.readVector x = m.readVector x
  flag_eq : ∀ f, f ∉ p.flags → m'.flags.get f = m.flags.get f
  byte_eq : ∀ a, (∀ s ∈ p.spans, ¬ s.Contains a) → m'.memory.byte a = m.memory.byte a

/-! ### Footprints of operands and operations -/

namespace Operand

def views : Operand → List View
  | register v => [v]
  | _ => []

def vectors : Operand → List VectorRegister
  | vector x => [x]
  | _ => []

def spans (m : Machine) : Operand → List Span
  | memory l => [l.span m]
  | _ => []

/-- The value of an operand that is known without an access to memory. -/
def value? (m : Machine) : Operand → Option Nat
  | register v => some (m.readView v)
  | immediate z n => some (truncate n z)
  | _ => none

end Operand

/-- A destination and the flags of the result. -/
def Place.footprint (m : Machine) (p : Place) (flags : List Flag) : Footprint :=
  { views := p.operand.views, flags, spans := p.operand.spans m }

/-- The views of a product and of a quotient with its remainder. -/
def Width.accumulators : Width → List View
  | byte => [.low .rax .word]
  | w => [.low .rax w, .low .rdx w]

/-- Nothing is left of the count of a shift of `bits` bits once it is reduced. -/
def Operand.CountsNothing (m : Machine) (bits : Nat) (count : Operand) : Prop :=
  ∃ n, count.value? m = some n ∧ maskedCount bits n = 0

instance (m : Machine) (bits : Nat) (count : Operand) : Decidable (count.CountsNothing m bits) :=
  match h : count.value? m with
  | some n => decidable_of_iff (maskedCount bits n = 0) (by simp [Operand.CountsNothing, h])
  | none => .isFalse (by simp [Operand.CountsNothing, h])

namespace Operation

def footprint (m : Machine) : Operation → Footprint
  | nothing => {}
  | move d _ | complement d => d.footprint m []
  | extend d _ | extendSigned d _ | loadAddress d _ | moveIf _ d _ => { views := [d] }
  | exchange a b =>
    { views := a.operand.views ++ b.operand.views, spans := a.operand.spans m ++ b.operand.spans m }
  | push _ => { views := [.rsp], spans := [m.belowStack] }
  | pop d => { views := d.operand.views ++ [.rsp], spans := d.operand.spans m.popped }
  | spreadSign w => { views := [Transaction.highHalf w] }
  | add _ d _ | subtract _ d _ | negate d | bitwise _ d _ => d.footprint m Flag.all
  | increment d | decrement d => d.footprint m [.parity, .adjust, .zero, .sign, .overflow]
  | compare _ _ | test _ _ => { flags := Flag.all }
  | multiply s | multiplySigned s => { views := s.width.accumulators, flags := Flag.all }
  | multiplyInto d _ _ => { views := [d], flags := Flag.all }
  | divide s | divideSigned s => { views := s.width.accumulators }
  | shift _ d c => d.footprint m (if c.operand.CountsNothing m d.width.bits then [] else Flag.all)
  | rotate _ d c => d.footprint m (if c.operand.CountsNothing m d.width.bits then [] else [.carry, .overflow])
  | scan _ d _ => { views := [d], flags := [.zero] }
  | addPacked d _ => { vectors := [d] }

end Operation

/-! ### The flags that are defined -/

theorem Flag.mem_all (f : Flag) : f ∈ Flag.all := by cases f <;> decide

private theorem Word.keepingCarry_defines (r : Flagged) {f : Flag} (h : ((Word.keepingCarry r).flags.get f).isSome) :
    f ∈ [.parity, .adjust, .zero, .sign, .overflow] := by
  cases f with
  | carry => cases h
  | _ => decide

private theorem Rotation.apply_defines (k : Rotation) (w value n : Nat) (f : Flag)
    (h : ((k.apply w value n).flags.get f).isSome) : f ∈ [.carry, .overflow] := by
  unfold Rotation.apply at h
  split at h
  · cases f <;> cases h
  · cases f with
    | carry | overflow => decide
    | _ => cases h

private theorem FlagEffect.zero_defines {b : Bool} {f : Flag}
    (h : (FlagEffect.get { FlagEffect.none with zero := some b } f).isSome) : f ∈ [.zero] := by
  cases f with
  | zero => decide
  | _ => cases h

/-! ### Writes inside a footprint -/

namespace Machine

theorem cell_writeView (m : Machine) (v : View) (value : Int) (c : Cell) :
    (m.writeView v value).cell c = if v.cell = c then v.write (m.cell c) value else m.cell c := by
  have hset := Bank.get_set m.registers v.cell.number c.number (v.write (m.cell v.cell) value)
  by_cases hc : v.cell = c
  · subst hc
    rw [if_pos rfl]
    exact hset.trans (if_pos rfl)
  · rw [if_neg hc]
    exact hset.trans (if_neg fun h => hc (Cell.number_inj.1 h))

theorem readView_writeView (m : Machine) (v : View) (value : Int) :
    (m.writeView v value).readView v = truncate v.bits value := by
  rw [readView, cell_writeView, if_pos rfl, View.read_write]

theorem readView_writeView_of_ne {u v : View} (hc : v.cell ≠ u.cell) (m : Machine) (value : Int) :
    (m.writeView v value).readView u = m.readView u := by
  rw [readView, cell_writeView, if_neg hc, readView]

/-- An address depends on the cells that it goes through. -/
theorem effectiveAddress_congr {m m' : Machine} {a : Address} (h : ∀ c ∈ a.cells, m'.cell c = m.cell c) :
    m'.effectiveAddress a = m.effectiveAddress a := by
  obtain ⟨base, index, scale, displacement⟩ := a
  cases base <;> cases index <;> simp_all [effectiveAddress, Address.cells]

theorem readVector_writeVector (m : Machine) (x y : VectorRegister) (value : Int) :
    (m.writeVector x value).readVector y = if x = y then truncate VectorRegister.bits value else m.readVector y := by
  have hset := Bank.get_set m.vectors x.number y.number (truncate VectorRegister.bits value)
  by_cases hx : x = y
  · subst hx
    rw [if_pos rfl]
    exact hset.trans (if_pos rfl)
  · rw [if_neg hx]
    exact hset.trans (if_neg fun h => hx (VectorRegister.number_inj.1 h))

namespace ChangesOnly

variable {m m₁ m₂ : Machine} {p : Footprint}

theorem refl (m : Machine) (p : Footprint) : m.ChangesOnly p m :=
  ⟨fun _ _ _ _ => rfl, fun _ _ => rfl, fun _ _ => rfl, fun _ _ => rfl⟩

theorem trans (h₁ : m.ChangesOnly p m₁) (h₂ : m₁.ChangesOnly p m₂) : m.ChangesOnly p m₂ where
  bit_eq c k hk hv := (h₂.bit_eq c k hk hv).trans (h₁.bit_eq c k hk hv)
  vector_eq x hx := (h₂.vector_eq x hx).trans (h₁.vector_eq x hx)
  flag_eq f hf := (h₂.flag_eq f hf).trans (h₁.flag_eq f hf)
  byte_eq a ha := (h₂.byte_eq a ha).trans (h₁.byte_eq a ha)

/-- A footprint may be widened. -/
theorem mono {q : Footprint} (h : m.ChangesOnly p m₁) (hviews : p.views ⊆ q.views) (hvectors : p.vectors ⊆ q.vectors)
    (hflags : p.flags ⊆ q.flags) (hspans : ∀ s ∈ p.spans, ∃ s' ∈ q.spans, s.Within s') : m.ChangesOnly q m₁ where
  bit_eq c k hk hv := h.bit_eq c k hk fun v hp => hv v (hviews hp)
  vector_eq x hx := h.vector_eq x fun hp => hx (hvectors hp)
  flag_eq f hf := h.flag_eq f fun hp => hf (hflags hp)
  byte_eq a ha := by
    refine h.byte_eq a fun s hs hin => ?_
    obtain ⟨s', hs', hlow, hhigh⟩ := hspans s hs
    obtain ⟨hfrom, hto⟩ := hin
    exact ha s' hs' ⟨by omega, by omega⟩

theorem widen {s s' : Span} (h : m.ChangesOnly { p with spans := [s] } m₁) (hs : s.Within s') :
    m.ChangesOnly { p with spans := [s'] } m₁ :=
  h.mono (List.Subset.refl _) (List.Subset.refl _) (List.Subset.refl _)
    (List.forall_mem_singleton.2 ⟨s', List.mem_singleton.2 rfl, hs⟩)

/-- A view of a cell that no view of the footprint belongs to. -/
theorem readView_eq {v : View} (h : m.ChangesOnly p m₁) (hv : ∀ u ∈ p.views, u.cell ≠ v.cell) :
    m₁.readView v = m.readView v := by
  have hend := v.shift_add_bits_le
  refine Nat.eq_of_testBit_eq fun k => ?_
  rw [readView, readView, View.testBit_read, View.testBit_read]
  by_cases hk : k < v.bits
  · rw [h.bit_eq v.cell (v.shift + k) (by omega) fun u hu hc => absurd hc (hv u hu)]
  · rw [decide_eq_false hk, Bool.false_and, Bool.false_and]

/-- A number beside the spans of the footprint. -/
theorem number_eq {a n : Nat} (h : m.ChangesOnly p m₁)
    (hs : ∀ s ∈ p.spans, s.address + s.length ≤ a ∨ a + n ≤ s.address) :
    m₁.memory.number a n = m.memory.number a n := by
  refine Memory.number_congr fun b hl hu => h.byte_eq b fun s hmem hin => ?_
  obtain ⟨hlow, hhigh⟩ := hin
  rcases hs s hmem with hbelow | habove
  · omega
  · omega

theorem writeView {v : View} (hv : v ∈ p.views) (m : Machine) (value : Int) :
    m.ChangesOnly p (m.writeView v value) where
  bit_eq c k hk hout := by
    rw [cell_writeView]
    by_cases hc : v.cell = c
    · rw [if_pos hc, View.testBit_write_of_not_writes (hout v hv hc) hk]
    · rw [if_neg hc]
  vector_eq _ _ := rfl
  flag_eq _ _ := rfl
  byte_eq _ _ := rfl

theorem writeVector {x : VectorRegister} (hx : x ∈ p.vectors) (m : Machine) (value : Int) :
    m.ChangesOnly p (m.writeVector x value) where
  bit_eq _ _ _ _ := rfl
  vector_eq y hy := by
    have hne : x ≠ y := fun h => hy (h ▸ hx)
    rw [readVector_writeVector, if_neg hne]
  flag_eq _ _ := rfl
  byte_eq _ _ := rfl

/-- Flags that an effect does not define stay what they are. -/
theorem applyFlags {e : FlagEffect} (he : ∀ f, (e.get f).isSome → f ∈ p.flags) (m : Machine) :
    m.ChangesOnly p { m with flags := e.apply m.flags } where
  bit_eq _ _ _ _ := rfl
  vector_eq _ _ := rfl
  flag_eq f hf := by
    have hnone : e.get f = none := Option.not_isSome_iff_eq_none.1 fun h => hf (he f h)
    rw [FlagEffect.get_apply, hnone, Option.getD_none]
  byte_eq _ _ := rfl

theorem writeInteger {address size : Nat} (hs : ⟨address, size⟩ ∈ p.spans) {value : Int}
    (h : m.writeInteger address size value = .ok m₁) : m.ChangesOnly p m₁ := by
  unfold Machine.writeInteger at h
  split at h
  · cases h
    refine ⟨fun _ _ _ _ => rfl, fun _ _ => rfl, fun _ _ => rfl, fun a ha => ?_⟩
    have hout : ¬ (address ≤ a ∧ a < address + size) := ha _ hs
    refine Memory.byte_store_outside _ ?_
    rw [length_littleEndian, Int.toNat_natCast]
    omega
  · cases h

end ChangesOnly

end Machine

namespace Transaction

theorem effectiveAddress_result (t : Transaction) (a : Address) :
    t.result.effectiveAddress a = t.effectiveAddress a := by
  have hcell : t.result.cell = t.cell := funext t.cell_result
  rw [Machine.effectiveAddress, effectiveAddress, hcell]

/-- A location is read and written where the machine that the transaction results in has it. -/
theorem readLocation_result (t : Transaction) (h : t.machine.memory.size = t.machine.capacity) (l : Location) :
    t.readLocation l =
      (t.result.readInteger (t.result.effectiveAddress l.address) l.width.bytes).mapError .outOfBounds := by
  rw [readLocation, effectiveAddress_result, t.readInteger_result h]

theorem map_result_writeLocation (t : Transaction) (l : Location) (value : Int) :
    (t.writeLocation l value).map result =
      (t.result.writeInteger (t.result.effectiveAddress l.address) l.width.bytes value).mapError .outOfBounds := by
  rw [writeLocation, effectiveAddress_result, ← result_writeInteger]
  cases t.writeInteger (t.effectiveAddress l.address) l.width.bytes value <;> rfl

end Transaction

namespace Machine.ChangesOnly

open Transaction

variable {m : Machine} {p : Footprint} {u u' : Transaction}

theorem view (h : m.ChangesOnly p u.result) {v : View} (hv : v ∈ p.views) (value : Int) :
    m.ChangesOnly p (u.writeView v value).result := by
  rw [result_writeView]
  exact h.trans (writeView hv _ value)

theorem vector (h : m.ChangesOnly p u.result) {x : VectorRegister} (hx : x ∈ p.vectors) (value : Int) :
    m.ChangesOnly p (u.writeVector x value).result := by
  rw [result_writeVector]
  exact h.trans (writeVector hx _ value)

theorem flags (h : m.ChangesOnly p u.result) {e : FlagEffect} (he : ∀ f, (e.get f).isSome → f ∈ p.flags) :
    m.ChangesOnly p (u.setFlags e).result := by
  rw [result_setFlags]
  exact h.trans (applyFlags he _)

theorem place (h : m.ChangesOnly p u.result) {d : Place} (hv : d.operand.views ⊆ p.views)
    (hs : d.operand.spans u.result ⊆ p.spans) {value : Int} (hw : u.write d value = .ok u') :
    m.ChangesOnly p u'.result := by
  cases d with
  | register v =>
    cases hw
    exact h.view (hv List.mem_cons_self) value
  | memory l =>
    have hstore := u.map_result_writeLocation l value
    rw [show u.writeLocation l value = .ok u' from hw] at hstore
    exact h.trans (writeInteger (hs List.mem_cons_self) (mapError_eq_ok.1 hstore.symm))

theorem finish (h : m.ChangesOnly p u.result) {d : Place} (hv : d.operand.views ⊆ p.views)
    (hs : d.operand.spans u.result ⊆ p.spans) {r : Flagged} (he : ∀ f, (r.flags.get f).isSome → f ∈ p.flags)
    (hw : u.finish d r = .ok u') : m.ChangesOnly p u'.result := by
  obtain ⟨u₁, h₁, hw⟩ := bind_eq_ok.1 hw
  cases hw
  exact (h.place hv hs h₁).flags he

theorem halves (h : m.ChangesOnly p u.result) {w : Width} (hv : w.accumulators ⊆ p.views) (high low : Nat) :
    m.ChangesOnly p (u.writeHalves w high low).result := by
  unfold writeHalves
  cases w with
  | byte => exact h.view (hv (by decide)) _
  | word => exact (h.view (hv (by decide)) _).view (hv (by decide)) _
  | dword => exact (h.view (hv (by decide)) _).view (hv (by decide)) _
  | qword => exact (h.view (hv (by decide)) _).view (hv (by decide)) _

end Machine.ChangesOnly

/-! ### Operations -/

namespace Transaction

open Machine (ChangesOnly)

variable {t u : Transaction} {p : Footprint}

private theorem update_changesOnly {d : Place} {flags : List Flag} {f : Nat → Flagged}
    (he : ∀ a g, ((f a).flags.get g).isSome → g ∈ flags) (h : t.update d f = .ok u) :
    t.result.ChangesOnly (d.footprint t.result flags) u.result := by
  obtain ⟨a, -, h⟩ := bind_eq_ok.1 h
  exact (ChangesOnly.refl _ _).finish (List.Subset.refl _) (List.Subset.refl _) (he a) h

private theorem multiplyHalves_changesOnly {s : Place} {f : Nat → Nat → Nat → Product}
    (h : t.multiplyHalves s f = .ok u) :
    t.result.ChangesOnly { views := s.width.accumulators, flags := Flag.all } u.result := by
  obtain ⟨a, -, h⟩ := bind_eq_ok.1 h
  cases h
  exact ((ChangesOnly.refl _ _).halves (List.Subset.refl _) _ _).flags fun g _ => g.mem_all

private theorem divideHalves_changesOnly {s : Place} {f : Nat → Nat → Nat → Division}
    (h : t.divideHalves s f = .ok u) : t.result.ChangesOnly { views := s.width.accumulators } u.result := by
  obtain ⟨d, -, h⟩ := bind_eq_ok.1 h
  split at h
  · cases h
  · dsimp only at h
    split at h
    · cases h
    · cases h
      exact (ChangesOnly.refl _ _).halves (List.Subset.refl _) _ _

/-- What is left of a count that was read tells whether the count is nothing. -/
private theorem not_countsNothing {count : Source} {bits n : Nat} (hread : t.read count = .ok n)
    (hn : maskedCount bits n ≠ 0) : ¬ count.operand.CountsNothing t.result bits := by
  rintro ⟨n', hvalue, hzero⟩
  cases count with
  | register v =>
    have hsame : t.result.readView v = t.readView v := t.readView_result v
    cases hread
    cases hvalue
    rw [hsame] at hzero
    exact hn hzero
  | immediate z k =>
    cases hread
    cases hvalue
    exact hn hzero
  | memory l => cases hvalue

private theorem moveBits_changesOnly {d : Place} {count : Source} {flags : List Flag} {f : Nat → Nat → Nat → Flagged}
    (he : ∀ w value n g, ((f w value n).flags.get g).isSome → g ∈ flags) (h : t.moveBits d count f = .ok u) :
    t.result.ChangesOnly
      (d.footprint t.result (if count.operand.CountsNothing t.result d.width.bits then [] else flags)) u.result := by
  obtain ⟨value, -, h⟩ := bind_eq_ok.1 h
  obtain ⟨n, hread, h⟩ := bind_eq_ok.1 h
  split at h
  · cases d with
    | register v =>
      dsimp only at h
      split at h <;> cases h
      · exact (ChangesOnly.refl _ _).view List.mem_cons_self _
      · exact ChangesOnly.refl _ _
    | memory l =>
      cases h
      exact ChangesOnly.refl _ _
  · rename_i hn
    rw [if_neg (not_countsNothing hread hn)]
    exact (ChangesOnly.refl _ _).finish (List.Subset.refl _) (List.Subset.refl _) (he _ value n) h

end Transaction

open Machine (ChangesOnly) in
open Transaction in
/-- An operation changes its footprint only. -/
theorem Operation.run_changesOnly {op : Operation} {t u : Transaction} (hop : ∀ p l, op ≠ .exchange p (.memory l))
    (h : op.run t = .ok u) : t.result.ChangesOnly (op.footprint t.result) u.result := by
  have start {p : Footprint} : t.result.ChangesOnly p t.result := .refl _ p
  cases op with
  | nothing =>
    cases h
    exact start
  | move d s =>
    obtain ⟨a, -, h⟩ := bind_eq_ok.1 h
    exact start.place (List.Subset.refl _) (List.Subset.refl _) h
  | extend d s | extendSigned d s =>
    obtain ⟨a, -, h⟩ := bind_eq_ok.1 h
    cases h
    exact start.view List.mem_cons_self _
  | loadAddress d a | spreadSign w =>
    cases h
    exact start.view List.mem_cons_self _
  | exchange p q =>
    obtain ⟨a, -, h⟩ := bind_eq_ok.1 h
    obtain ⟨b, -, h⟩ := bind_eq_ok.1 h
    obtain ⟨u₁, h₁, h⟩ := bind_eq_ok.1 h
    have hfirst : t.result.ChangesOnly ((exchange p q).footprint t.result) u₁.result :=
      start.place (List.subset_append_left _ _) (List.subset_append_left _ _) h₁
    cases q with
    -- a register needs no address, so the first write does not matter to the second
    | register v => exact hfirst.place (List.subset_append_right _ _) (List.nil_subset _) h
    | memory l => exact absurd rfl (hop p l)
  | push s =>
    obtain ⟨a, -, h⟩ := bind_eq_ok.1 h
    obtain ⟨u₁, h₁, h⟩ := bind_eq_ok.1 h
    cases h
    have hstaged : t.writeInteger (truncate 64 ((t.readView .rsp : Int) - 8) : Nat) 8 a = .ok u₁ :=
      mapError_eq_ok.1 h₁
    have hstore := t.result_writeInteger (truncate 64 ((t.readView .rsp : Int) - 8) : Nat) 8 a
    rw [hstaged, ← t.readView_result] at hstore
    have hbelow : t.result.ChangesOnly ((push s).footprint t.result) u₁.result :=
      ChangesOnly.writeInteger List.mem_cons_self hstore.symm
    exact hbelow.view List.mem_cons_self _
  | pop d =>
    obtain ⟨a, -, h⟩ := bind_eq_ok.1 h
    have hraised : (t.writeView .rsp (t.readView .rsp + 8)).result = t.result.popped := by
      rw [result_writeView, Machine.popped, readView_result]
    refine (start.view (List.mem_append_right _ List.mem_cons_self) _).place (List.subset_append_left _ _) ?_ h
    exact hraised ▸ List.Subset.refl _
  | moveIf zero d s =>
    obtain ⟨a, -, h⟩ := bind_eq_ok.1 h
    split at h
    · cases h
      exact start.view List.mem_cons_self _
    · split at h <;> cases h
      · exact start.view List.mem_cons_self _
      · exact start
  | add _ d s | subtract _ d s | bitwise _ d s =>
    obtain ⟨a, -, h⟩ := bind_eq_ok.1 h
    obtain ⟨b, -, h⟩ := bind_eq_ok.1 h
    exact start.finish (List.Subset.refl _) (List.Subset.refl _) (fun g _ => g.mem_all) h
  | compare d s | test d s =>
    obtain ⟨a, -, h⟩ := bind_eq_ok.1 h
    obtain ⟨b, -, h⟩ := bind_eq_ok.1 h
    cases h
    exact start.flags fun g _ => g.mem_all
  | increment d | decrement d => exact update_changesOnly (fun a g => Word.keepingCarry_defines _) h
  | negate d => exact update_changesOnly (fun a g _ => g.mem_all) h
  | complement d => exact update_changesOnly (fun a g => by cases g <;> exact nofun) h
  | multiply s | multiplySigned s => exact multiplyHalves_changesOnly h
  | multiplyInto d s r =>
    obtain ⟨a, -, h⟩ := bind_eq_ok.1 h
    obtain ⟨b, -, h⟩ := bind_eq_ok.1 h
    cases h
    exact (start.view List.mem_cons_self _).flags fun g _ => g.mem_all
  | divide s | divideSigned s => exact divideHalves_changesOnly h
  | shift k d c => exact moveBits_changesOnly (fun _ _ _ g _ => g.mem_all) h
  | rotate k d c => exact moveBits_changesOnly k.apply_defines h
  | scan k d s =>
    obtain ⟨a, -, h⟩ := bind_eq_ok.1 h
    split at h <;> cases h
    · exact start.flags fun g => FlagEffect.zero_defines
    · exact (start.view List.mem_cons_self _).flags fun g => FlagEffect.zero_defines
  | addPacked d s =>
    cases h
    exact start.vector List.mem_cons_self _

end LongMode

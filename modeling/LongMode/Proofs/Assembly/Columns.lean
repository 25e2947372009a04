import LongMode.Assembly.Line
import LongMode.Proofs.Outcome

/-!
# Readings that differ in columns only

The column of a text decides nothing but the column of an error.  Two readings are compared by a view of their results
and by the complaints of their errors (`SameReading`).

* `SameReading.bind` and `sameReading_mapM`: steps that agree make readings that agree.
* `sameReading_operands`: pieces with the same texts are the same operands.
* `sameReading_resolveWidths`: operands that differ in their columns get the same widths.
-/

namespace LongMode

/-- An error without its column. -/
def ParseError.complaint (e : ParseError) : Complaint := ⟨e.cause, e.token⟩

namespace Assembly

variable {α β γ δ : Type}

/-- Both succeed with results that look the same, or both fail with the same complaint. -/
def SameReading (view : α → γ) (x y : Except ParseError α) : Prop :=
  (x.map view).mapError ParseError.complaint = (y.map view).mapError ParseError.complaint

namespace SameReading

variable {view : α → γ} {x y : Except ParseError α}

theorem ok {a b : α} (h : view a = view b) : SameReading view (.ok a) (.ok b) := congrArg Except.ok h

theorem error {e e' : ParseError} (h : e.complaint = e'.complaint) : SameReading view (.error e) (.error e') :=
  congrArg Except.error h

theorem bind {view' : β → δ} {f g : α → Except ParseError β} (h : SameReading view x y)
    (hf : ∀ a b, view a = view b → SameReading view' (f a) (g b)) : SameReading view' (x >>= f) (y >>= g) := by
  cases x with
  | ok a =>
    cases y with
    | ok b => exact hf a b (Except.ok.inj h)
    | error e => cases h
  | error e =>
    cases y with
    | ok b => cases h
    | error e' => exact error (Except.error.inj h)

theorem ok_iff {x y : Except ParseError α} (h : SameReading id x y) {a : α} : x = .ok a ↔ y = .ok a := by
  cases x with
  | ok b =>
    cases y with
    | ok b' => rw [show b = b' from Except.ok.inj h]
    | error e => cases h
  | error e =>
    cases y with
    | ok b => cases h
    | error e' => exact ⟨nofun, nofun⟩

end SameReading

theorem sameReading_mapM {key : α → γ} (view : β → δ) {f g : α → Except ParseError β} {xs ys : List α}
    (h : xs.map key = ys.map key) (hf : ∀ a b, key a = key b → SameReading view (f a) (g b)) :
    SameReading (List.map view) (xs.mapM f) (ys.mapM g) := by
  induction xs generalizing ys with
  | nil =>
    obtain rfl : ys = [] := by simpa using h
    exact .ok rfl
  | cons x xs ih =>
    cases ys with
    | nil => cases h
    | cons y ys =>
      rw [List.map_cons, List.map_cons, List.cons.injEq] at h
      rw [List.mapM_cons, List.mapM_cons]
      refine (hf x y h.1).bind fun a b hab => (ih h.2).bind fun as bs habs => .ok ?_
      rw [List.map_cons, List.map_cons, hab, habs]

/-! ### Operands -/

theorem sameReading_operands {ps qs : List Piece} (h : ps.map Piece.text = qs.map Piece.text) :
    SameReading (List.map PlacedOperand.operand) (ps.mapM Piece.operand) (qs.mapM Piece.operand) := by
  refine sameReading_mapM _ h fun p q hpq => ?_
  unfold Piece.operand
  rw [hpq]
  cases readOperand q.text with
  | ok o => exact .ok rfl
  | error c => exact .error rfl

/-! ### Widths -/

/-- An operand without the column of its literal. -/
def SizedOperand.placeless : SizedOperand → Operand ⊕ Int
  | .known o => .inl o
  | .literal z _ => .inr z

private theorem map_zipIdx {key : α → γ} {xs ys : List α} (h : xs.map key = ys.map key) :
    xs.zipIdx.map (fun p => (key p.1, p.2)) = ys.zipIdx.map fun p => (key p.1, p.2) := by
  have hx : (xs.map key).zipIdx = xs.zipIdx.map (Prod.map key id) := List.zipIdx_map
  rw [h] at hx
  exact hx.symm.trans List.zipIdx_map

private theorem filterMap_eq_of_map_eq {key : α → γ} {f : α → Option β} (hf : ∀ a b, key a = key b → f a = f b)
    {xs ys : List α} (h : xs.map key = ys.map key) : xs.filterMap f = ys.filterMap f := by
  induction xs generalizing ys with
  | nil =>
    obtain rfl : ys = [] := by simpa using h
    rfl
  | cons x xs ih =>
    cases ys with
    | nil => cases h
    | cons y ys =>
      rw [List.map_cons, List.map_cons, List.cons.injEq] at h
      rw [List.filterMap_cons, List.filterMap_cons, hf x y h.1, ih h.2]

private theorem sizingWidths_congr {m : Mnemonic} {ps qs : List PlacedOperand}
    (h : ps.map PlacedOperand.operand = qs.map PlacedOperand.operand) : sizingWidths m ps = sizingWidths m qs := by
  refine filterMap_eq_of_map_eq (fun p q hpq => ?_) (map_zipIdx h)
  obtain ⟨p, i⟩ := p
  obtain ⟨q, j⟩ := q
  obtain ⟨hoperand, rfl⟩ := Prod.mk.inj hpq
  dsimp only at hoperand ⊢
  rw [hoperand]

private theorem sameReading_sizeMemory (m : Mnemonic) (widths : List Width) {p q : PlacedOperand}
    (h : p.operand = q.operand) (i : Nat) :
    SameReading SizedOperand.placeless (sizeMemory m widths p i) (sizeMemory m widths q i) := by
  unfold sizeMemory
  rw [h]
  cases q.operand with
  | register v => exact .ok rfl
  | vector x => exact .ok rfl
  | immediate z => exact .ok rfl
  | memory a width =>
    dsimp only
    cases width.or (impliedWidth? m i widths) with
    | some w => exact .ok rfl
    | none => exact .error rfl

private theorem immediateBits?_congr (m : Mnemonic) (i : Nat) {first first' : Option SizedOperand}
    (h : first.map SizedOperand.placeless = first'.map SizedOperand.placeless) :
    immediateBits? m i first = immediateBits? m i first' := by
  unfold immediateBits?
  rcases first with - | ⟨o | ⟨z, c⟩⟩ <;> rcases first' with - | ⟨o' | ⟨z', c'⟩⟩ <;>
    simp_all [SizedOperand.placeless]

private theorem sameReading_sizeImmediate (m : Mnemonic) {first first' : Option SizedOperand} {o o' : SizedOperand}
    (hfirst : first.map SizedOperand.placeless = first'.map SizedOperand.placeless)
    (h : o.placeless = o'.placeless) (i : Nat) :
    SameReading id (sizeImmediate m first o i) (sizeImmediate m first' o' i) := by
  cases o with
  | known o =>
    cases o' with
    | known o' => exact .ok (Sum.inl.inj h)
    | literal z c => cases h
  | literal z c =>
    cases o' with
    | known o' => cases h
    | literal z' c' =>
      obtain rfl : z = z' := Sum.inr.inj h
      unfold sizeImmediate
      dsimp only
      rw [immediateBits?_congr m i hfirst]
      cases immediateBits? m i first' with
      | some bits => exact .ok rfl
      | none => exact .error rfl

theorem sameReading_resolveWidths (m : Mnemonic) {ps qs : List PlacedOperand}
    (h : ps.map PlacedOperand.operand = qs.map PlacedOperand.operand) :
    SameReading id (resolveWidths m ps) (resolveWidths m qs) := by
  unfold resolveWidths
  dsimp only
  rw [sizingWidths_congr h]
  have hsized := sameReading_mapM SizedOperand.placeless (map_zipIdx h)
    (f := fun p => sizeMemory m (sizingWidths m qs) p.1 p.2) (g := fun p => sizeMemory m (sizingWidths m qs) p.1 p.2)
    fun p q hpq => by
      rw [(Prod.mk.inj hpq).2]
      exact sameReading_sizeMemory m _ (Prod.mk.inj hpq).1 q.2
  refine hsized.bind fun os os' hos => ?_
  have hfirst : os.head?.map SizedOperand.placeless = os'.head?.map SizedOperand.placeless := by
    rw [← List.head?_map, ← List.head?_map, hos]
  have hbits := sameReading_mapM id (map_zipIdx hos)
    (f := fun p => sizeImmediate m os.head? p.1 p.2) (g := fun p => sizeImmediate m os'.head? p.1 p.2)
    fun p q hpq => by
      rw [(Prod.mk.inj hpq).2]
      exact sameReading_sizeImmediate m hfirst (Prod.mk.inj hpq).1 q.2
  rwa [List.map_id_fun] at hbits

end Assembly

end LongMode

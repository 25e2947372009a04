import LongMode.Session.Trace

/-!
# Replaying the changes of an entry

An entry lists the registers and the flags that changed.  `Snapshot.replay` stores the new values of such a list in a
snapshot, the registers by their names.

* `Snapshot.replay_before`: on the snapshot before the instruction this gives the snapshot after it, except for the
  counter, which the lists do not mention.
* `TraceEntry.Linked.replay`: so the changes of entries that follow each other give the snapshot in the end.
-/

namespace LongMode

namespace Snapshot

/-- Stores a value in the register of that name. -/
def withRegister (s : Snapshot) (name : String) (value : Nat) : Snapshot :=
  match RegisterName.ofText? name.toList with
  | some (.view v) => { s with registers := s.registers.set v.cell.number value }
  | some (.vector x) => { s with vectors := s.vectors.set x.number value }
  | none => s

def withFlag (s : Snapshot) (f : Flag) (value : Bool) : Snapshot := { s with flags := s.flags.set f value }

/-- Stores the new values that an entry lists. -/
def replay (s : Snapshot) (e : TraceEntry) : Snapshot :=
  e.flagChanges.foldl (fun s p => s.withFlag p.1 p.2.after)
    (e.registerChanges.foldl (fun s p => s.withRegister p.1 p.2.after) s)

private theorem withRegister_cell (s : Snapshot) (c : Cell) (value : Nat) :
    s.withRegister c.name value = { s with registers := s.registers.set c.number value } := by
  have hname : RegisterName.ofText? c.name.toList = some (.view (.low c .qword)) := by cases c <;> decide
  rw [withRegister, hname]
  rfl

private theorem withRegister_vector (s : Snapshot) (x : VectorRegister) (value : Nat) :
    s.withRegister x.name value = { s with vectors := s.vectors.set x.number value } := by
  have hname : ∀ n : Fin 16, RegisterName.ofText? (VectorRegister.mk n).name.toList = some (.vector ⟨n⟩) := by decide
  rw [withRegister, hname x.number]

/-! ### Storing what differs -/

section

variable {σ ι β : Type} [DecidableEq ι] {get : σ → ι → β} {set : σ → ι → β → σ}

private theorem get_foldl_set (hset : ∀ s i j v, get (set s i v) j = if i = j then v else get s j) (target : ι → β)
    (l : List ι) (s : σ) (j : ι) :
    get (l.foldl (fun s i => set s i (target i)) s) j = if j ∈ l then target j else get s j := by
  induction l generalizing s with
  | nil => rfl
  | cons i rest ih =>
    rw [List.foldl_cons, ih, hset]
    by_cases hr : j ∈ rest
    · simp [hr]
    · by_cases hi : i = j
      · simp [hi]
      · simp [hr, hi, Ne.symm hi]

/-- Where `s` and `t` differ, the values of `t` are stored in `s`; the list reaches every place. -/
private theorem foldl_set_different {α : Type} [BEq β] [LawfulBEq β]
    (hset : ∀ s i j v, get (set s i v) j = if i = j then v else get s j)
    (hext : ∀ s t, (∀ i, get s i = get t i) → s = t) (place : α → ι) {l : List α} (hl : ∀ i, i ∈ l.map place)
    (s t : σ) :
    (l.filter fun a => get s (place a) != get t (place a)).foldl (fun s a => set s (place a) (get t (place a))) s =
      t := by
  refine hext _ _ fun i => ?_
  rw [← List.foldl_map (f := place) (g := fun s i => set s i (get t i)), get_foldl_set hset]
  split
  · rfl
  · rename_i hi
    obtain ⟨a, ha, rfl⟩ := List.mem_map.1 (hl i)
    -- a place that is not stored is one where they agree
    cases hd : get s (place a) != get t (place a) with
    | true => exact absurd (List.mem_map_of_mem (List.mem_filter.2 ⟨ha, hd⟩)) hi
    | false => simpa using hd

end

private theorem foldl_cells (a b v : Bank) (r : Int) (f : Flags) :
    (Cell.all.filter fun c => a.get c.number != b.get c.number).foldl
      (fun s c => withRegister s c.name (b.get c.number)) (mk a v r f) = mk b v r f := by
  have hlift : ∀ l : List Cell, l.foldl (fun s c => withRegister s c.name (b.get c.number)) (mk a v r f) =
      mk (l.foldl (fun a c => a.set c.number (b.get c.number)) a) v r f := fun l =>
    List.foldl_hom (fun a => mk a v r f) fun a c => withRegister_cell (mk a v r f) c _
  rw [hlift, foldl_set_different Bank.get_set (fun _ _ => Bank.ext) Cell.number (by decide)]

private theorem foldl_vectors (a b g : Bank) (r : Int) (f : Flags) :
    (VectorRegister.all.filter fun x => a.get x.number != b.get x.number).foldl
      (fun s x => withRegister s x.name (b.get x.number)) (mk g a r f) = mk g b r f := by
  have hlift : ∀ l : List VectorRegister,
      l.foldl (fun s x => withRegister s x.name (b.get x.number)) (mk g a r f) =
        mk g (l.foldl (fun a x => a.set x.number (b.get x.number)) a) r f := fun l =>
    List.foldl_hom (fun a => mk g a r f) fun a x => withRegister_vector (mk g a r f) x _
  rw [hlift, foldl_set_different Bank.get_set (fun _ _ => Bank.ext) VectorRegister.number (by decide)]

private theorem foldl_flags (a b : Flags) (g v : Bank) (r : Int) :
    (Flag.all.filter fun f => a.get f != b.get f).foldl (fun s f => withFlag s f (b.get f)) (mk g v r a) =
      mk g v r b := by
  have hlift : ∀ l : List Flag, l.foldl (fun s f => withFlag s f (b.get f)) (mk g v r a) =
      mk g v r (l.foldl (fun a f => a.set f (b.get f)) a) := fun l =>
    List.foldl_hom (fun a => mk g v r a) fun _ _ => rfl
  have hall : ∀ f, f ∈ Flag.all.map id := by
    intro f
    cases f <;> decide
  rw [hlift]
  exact congrArg (mk g v r) (foldl_set_different Flags.get_set (fun _ _ => Flags.ext_get) id hall a b)

/-- The counter stays what it was. -/
theorem replay_before (e : TraceEntry) (rip : Int) :
    ({ e.before with rip := rip } : Snapshot).replay e = { e.after with rip := rip } := by
  simp only [replay, TraceEntry.registerChanges, TraceEntry.flagChanges, List.filter_append, List.foldl_append,
    List.filter_map, List.foldl_map, Function.comp_def, foldl_cells, foldl_vectors, foldl_flags]

end Snapshot

/-- Each entry starts where the one before it ended; the first starts at `s`, and the last ends at `t`. -/
def TraceEntry.Linked (s : Snapshot) : List TraceEntry → Snapshot → Prop
  | [], t => s = t
  | e :: rest, t => e.before = s ∧ Linked e.after rest t

theorem TraceEntry.Linked.replay {s t : Snapshot} {entries : List TraceEntry} (h : Linked s entries t) (rip : Int) :
    entries.foldl Snapshot.replay { s with rip := rip } = { t with rip := rip } := by
  induction entries generalizing s with
  | nil => rw [show s = t from h]; rfl
  | cons e rest ih =>
    obtain ⟨rfl, hrest⟩ := h
    rw [List.foldl_cons, Snapshot.replay_before]
    exact ih hrest

end LongMode

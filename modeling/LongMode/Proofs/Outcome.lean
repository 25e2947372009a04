/-!
# Computations that may fail

What the outcome of a computation says about the outcomes of its parts.

* `bind_eq_ok`, `map_eq_ok` and `mapError_eq_ok`: a sequence succeeds exactly when every step does.
* `mapError_bind`, `mapError_map` and `mapError_mapM`: errors may be changed at the end or at every step.
* `ite_error_eq_ok`: what comes after a check succeeds if the check passes and it does.
* `bind_eq_error` and `map_eq_error`: it fails where the first step that fails does.
* `mapM_eq_ok`: a list of computations succeeds exactly when each of them does, with the results in the same order.
* `forM_eq_ok`: the same for computations without a result.
* `exists_mem_of_mapM_eq_error` and `mapM_eq_error`: if some of them fail, the list fails with an error of one of them.
-/

namespace LongMode

variable {ε ε' α β : Type}

@[simp] theorem ok_bind (a : α) (f : α → Except ε β) : Except.ok a >>= f = f a := rfl

@[simp] theorem map_ok (f : α → β) (a : α) : (Except.ok a : Except ε α).map f = .ok (f a) := rfl

theorem bind_eq_ok {x : Except ε α} {f : α → Except ε β} {b : β} :
    x >>= f = .ok b ↔ ∃ a, x = .ok a ∧ f a = .ok b := by
  cases x <;> simp [bind, Except.bind]

theorem bind_eq_error {x : Except ε α} {f : α → Except ε β} {e : ε} :
    x >>= f = .error e ↔ x = .error e ∨ ∃ a, x = .ok a ∧ f a = .error e := by
  cases x <;> simp [bind, Except.bind]

theorem exists_bind_eq_ok {x : Except ε α} {f : α → Except ε β} :
    (∃ b, (x >>= f) = .ok b) ↔ ∃ a, x = .ok a ∧ ∃ b, f a = .ok b := by
  cases x <;> simp [bind, Except.bind]

theorem map_eq_ok {x : Except ε α} {f : α → β} {b : β} : x.map f = .ok b ↔ ∃ a, x = .ok a ∧ f a = b := by
  cases x <;> simp [Except.map]

theorem map_eq_error {x : Except ε α} {f : α → β} {e : ε} : x.map f = .error e ↔ x = .error e := by
  cases x <;> simp [Except.map]

@[simp] theorem mapError_ok (f : ε → ε') (a : α) : (Except.ok a).mapError f = .ok a := rfl

@[simp] theorem mapError_error (f : ε → ε') (e : ε) : (Except.error e : Except ε α).mapError f = .error (f e) := rfl

theorem mapError_eq_ok {x : Except ε α} {f : ε → ε'} {a : α} : x.mapError f = .ok a ↔ x = .ok a := by
  cases x <;> simp

theorem mapError_bind (k : ε → ε') (x : Except ε α) (f : α → Except ε β) :
    (x >>= f).mapError k = x.mapError k >>= fun a => (f a).mapError k := by
  cases x <;> rfl

theorem mapError_map (k : ε → ε') (x : Except ε α) (f : α → β) : (x.map f).mapError k = (x.mapError k).map f := by
  cases x <;> rfl

theorem mapError_mapM (k : ε → ε') (f : α → Except ε β) (xs : List α) :
    (xs.mapM f).mapError k = xs.mapM fun a => (f a).mapError k := by
  induction xs with
  | nil => rfl
  | cons x xs ih =>
    rw [List.mapM_cons, List.mapM_cons, mapError_bind, ← ih]
    cases f x with
    | error e => rfl
    | ok y => cases xs.mapM f <;> rfl

theorem exists_ite_ok {c : Prop} [Decidable c] {a : α} {e : ε} :
    (∃ b, (if c then .ok a else .error e : Except ε α) = .ok b) ↔ c := by
  by_cases h : c <;> simp [h]

/-- What a check lets pass. -/
theorem ite_error_eq_ok {c : Prop} [Decidable c] {e : ε} {x : Except ε α} {a : α} :
    (if c then .error e else x) = .ok a ↔ ¬c ∧ x = .ok a := by
  by_cases h : c <;> simp [h]

theorem mapM_eq_ok {f : α → Except ε β} {xs : List α} {ys : List β} :
    xs.mapM f = .ok ys ↔ xs.map f = ys.map .ok := by
  induction xs generalizing ys with
  | nil => cases ys <;> simp [pure, Except.pure]
  | cons x xs ih =>
    rw [List.mapM_cons]
    cases hx : f x with
    | error e => cases ys <;> simp [bind, Except.bind, hx]
    | ok y =>
      cases ys with
      | nil => cases hr : xs.mapM f <;> simp [bind, Except.bind, pure, Except.pure]
      | cons z zs =>
        have h := @ih zs
        cases hr : xs.mapM f <;> simp [bind, Except.bind, pure, Except.pure, hx, hr, ← h]

theorem forM_eq_ok {f : α → Except ε Unit} {xs : List α} : forM xs f = .ok () ↔ ∀ x ∈ xs, f x = .ok () := by
  induction xs with
  | nil => exact ⟨fun _ => by simp, fun _ => rfl⟩
  | cons x xs ih =>
    rw [List.forM_cons, bind_eq_ok, List.forall_mem_cons, ← ih]
    exact ⟨fun ⟨_, hx, hxs⟩ => ⟨hx, hxs⟩, fun ⟨hx, hxs⟩ => ⟨(), hx, hxs⟩⟩

/-- The result at a position comes from the element at that position. -/
theorem getElem?_of_mapM {f : α → Except ε β} {xs : List α} {ys : List β} (h : xs.mapM f = .ok ys) {k : Nat} {y : β}
    (hk : ys[k]? = some y) : ∃ x, xs[k]? = some x ∧ f x = .ok y := by
  have hm := congrArg (fun l => l[k]?) (mapM_eq_ok.1 h)
  simpa [hk] using hm

theorem length_of_mapM {f : α → Except ε β} {xs : List α} {ys : List β} (h : xs.mapM f = .ok ys) :
    ys.length = xs.length := by
  simpa using (congrArg List.length (mapM_eq_ok.1 h)).symm

theorem exists_mem_of_mapM_eq_ok {f : α → Except ε β} {xs : List α} {ys : List β} (h : xs.mapM f = .ok ys) {y : β}
    (hy : y ∈ ys) : ∃ x ∈ xs, f x = .ok y := by
  obtain ⟨k, hk⟩ := List.getElem?_of_mem hy
  obtain ⟨x, hx, hf⟩ := getElem?_of_mapM h hk
  exact ⟨x, List.mem_of_getElem? hx, hf⟩

/-- The error that comes out is that of the first element that fails. -/
theorem exists_mem_of_mapM_eq_error {f : α → Except ε β} {xs : List α} {e : ε} (h : xs.mapM f = .error e) :
    ∃ x ∈ xs, f x = .error e := by
  induction xs with
  | nil => cases h
  | cons x xs ih =>
    rw [List.mapM_cons] at h
    rcases bind_eq_error.1 h with hx | ⟨y, -, h⟩
    · exact ⟨x, List.mem_cons_self, hx⟩
    · rcases bind_eq_error.1 h with hxs | ⟨ys, -, h⟩
      · obtain ⟨x', hx', he⟩ := ih hxs
        exact ⟨x', List.mem_cons_of_mem _ hx', he⟩
      · cases h

theorem mapM_eq_error {f : α → Except ε β} {p : ε → Prop} {xs : List α}
    (h : ∀ x ∈ xs, ∀ e, f x = .error e → p e) (hx : ∃ x ∈ xs, ∃ e, f x = .error e) :
    ∃ e, xs.mapM f = .error e ∧ p e := by
  cases hm : xs.mapM f with
  | error e =>
    obtain ⟨x, hx, he⟩ := exists_mem_of_mapM_eq_error hm
    exact ⟨e, rfl, h x hx e he⟩
  | ok ys =>
    obtain ⟨x, hx, e, he⟩ := hx
    have hmem : f x ∈ xs.map f := List.mem_map_of_mem hx
    rw [mapM_eq_ok.1 hm, he] at hmem
    simp at hmem

end LongMode

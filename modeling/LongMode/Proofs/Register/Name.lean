import LongMode.Proofs.Text.Letter
import LongMode.Proofs.Text.Numeral
import LongMode.Register.Name

/-!
# The names of registers

* `View.name_characters` and `VectorRegister.name_characters`: names are words of small letters and digits.
* `View.ofName?_eq_some` and `VectorRegister.ofName?_eq_some`: a text names the register whose name it spells, in any
  letter case.
* `Cell.unsigned?_of_spells`: the name of a cell is no numeral.
* `RegisterName.ofText?_lower`: letter case does not matter to what a text names.
* `RegisterName.find_view` and `RegisterName.find_vector`: a text that names a view or a vector register names that
  register and no other.
-/

namespace LongMode

theorem View.name_characters (v : View) : v.name.toList ≠ [] ∧ ∀ c ∈ v.name.toList, c ∈ Text.wordCharacters := by
  cases v with
  | low c w => cases c <;> cases w <;> exact ⟨by decide, Text.forall_mem_of_all (by decide)⟩
  | high b => cases b <;> exact ⟨by decide, Text.forall_mem_of_all (by decide)⟩

theorem Cell.name_characters (c : Cell) : c.name.toList ≠ [] ∧ ∀ x ∈ c.name.toList, x ∈ Text.wordCharacters :=
  View.name_characters (.low c .qword)

theorem VectorRegister.name_characters (x : VectorRegister) :
    x.name.toList ≠ [] ∧ ∀ c ∈ x.name.toList, c ∈ Text.wordCharacters := by
  have hall : ∀ n : Fin 16, (mk n).name.toList ≠ [] ∧ (mk n).name.toList.all (fun c => c ∈ Text.wordCharacters) := by
    decide
  exact ⟨(hall x.number).1, Text.forall_mem_of_all (hall x.number).2⟩

/-! ### Texts and the registers that they name -/

theorem View.mem_all (v : View) : v ∈ all := by
  cases v with
  | low c w =>
    have hcell : c ∈ Cell.all := by cases c <;> decide
    have hwidth : w ∈ Width.all := by cases w <;> decide
    exact List.mem_append_left _ (List.mem_flatMap.2 ⟨c, hcell, List.mem_map_of_mem hwidth⟩)
  | high b =>
    have hbyte : b ∈ HighByte.all := by cases b <;> decide
    exact List.mem_append_right _ (List.mem_map_of_mem hbyte)

theorem View.ofName?_eq_some {s : List Char} {v : View} : ofName? s = some v ↔ Text.spells s v.name = true := by
  constructor
  · intro h
    exact List.find?_some (p := fun v : View => Text.spells s v.name) h
  · intro h
    have hlower : Text.lower s = v.name.toList := eq_of_beq h
    -- no two views have the same name
    have hall : ∀ v ∈ all, all.find? (fun u => v.name.toList == u.name.toList) = some v := by decide +kernel
    simp only [ofName?, Text.spells, hlower]
    exact hall v v.mem_all

theorem VectorRegister.ofName?_eq_some {s : List Char} {x : VectorRegister} :
    ofName? s = some x ↔ Text.spells s x.name = true := by
  constructor
  · intro h
    exact List.find?_some (p := fun x : VectorRegister => Text.spells s x.name) h
  · intro h
    have hlower : Text.lower s = x.name.toList := eq_of_beq h
    have hall : ∀ n, (all.find? fun y => (mk n).name.toList == y.name.toList) = some (mk n) := by decide
    simp only [ofName?, Text.spells, hlower]
    exact hall x.number

@[simp] theorem View.ofName?_lower (s : List Char) : ofName? (Text.lower s) = ofName? s := by
  simp only [ofName?, Text.spells_lower]

@[simp] theorem VectorRegister.ofName?_lower (s : List Char) : ofName? (Text.lower s) = ofName? s := by
  simp only [ofName?, Text.spells_lower]

theorem RegisterName.ofText?_lower (s : List Char) : ofText? (Text.lower s) = ofText? s := by
  simp only [ofText?, View.ofName?_lower, VectorRegister.ofName?_lower]

/-! ### The name of a cell in any letter case -/

section

variable {s : List Char} {c : Cell}

theorem Cell.not_mem_of_spells (h : Text.spells s c.name = true) {x : Char}
    (hx : x.toLower = x ∧ x ∉ Text.wordCharacters) : s ≠ [] ∧ x ∉ s := by
  have hlower : Text.lower s = c.name.toList := eq_of_beq h
  obtain ⟨hne, hword⟩ := c.name_characters
  constructor
  · rintro rfl
    exact hne hlower.symm
  · refine Text.not_mem_of_lower hx.1 fun hmem => hx.2 (hword x ?_)
    rwa [← hlower]

theorem Cell.isIdentifier_of_spells (h : Text.spells s c.name = true) : Text.isIdentifier s = true := by
  have hlower : Text.lower s = c.name.toList := eq_of_beq h
  rw [← Text.isIdentifier_lower, hlower]
  cases c <;> rfl

/-- All names start with the same letter, which is not a digit. -/
theorem Cell.unsigned?_of_spells (h : Text.spells s c.name = true) : Text.unsigned? s = none := by
  have hlower : Text.lower s = c.name.toList := eq_of_beq h
  have hhead : (Text.lower s).head? = some 'r' := by
    rw [hlower]
    cases c <;> rfl
  cases s with
  | nil => cases hhead
  | cons x r =>
    have hx : x.toLower = 'r' := Option.some.inj hhead
    have hr : x = 'r' ∨ x = 'R' := by
      have hcapital : ∀ n < 26, Char.ofNat (97 + n) = 'r' → Char.ofNat (65 + n) = 'R' := by decide
      obtain h | ⟨n, hn, rfl, h⟩ := Text.toLower_cases x
      · exact .inl (h.symm.trans hx)
      · exact .inr (hcapital n hn (h.symm.trans hx))
    cases hs : Text.unsigned? (x :: r) with
    | none => rfl
    | some n =>
      obtain rfl | rfl := hr
      · exact absurd List.mem_cons_self (Text.not_mem_of_unsigned? (by decide) hs).2
      · exact absurd List.mem_cons_self (Text.not_mem_of_unsigned? (by decide) hs).2

end

/-! ### Views and vector registers -/

/-- Only the names of vector registers start with an x. -/
private theorem head_view_name (v : View) : v.name.toList.head? ≠ some 'x' := by
  cases v with
  | low c w => cases c <;> cases w <;> decide
  | high b => cases b <;> decide

private theorem head_vector_name (x : VectorRegister) : x.name.toList.head? = some 'x' := by
  simp [VectorRegister.name]

theorem VectorRegister.ofName?_eq_none {s : List Char} {v : View} (h : View.ofName? s = some v) : ofName? s = none := by
  have hv : Text.lower s = v.name.toList := by simpa [Text.spells] using List.find?_some h
  rw [ofName?, List.find?_eq_none]
  intro x _ hx
  have hx' : Text.lower s = x.name.toList := by simpa [Text.spells] using hx
  exact head_view_name v (by rw [← hv, hx', head_vector_name])

namespace RegisterName

theorem find_view {name : String} {v : View} (h : View.ofName? name.toList = some v) : find name = .ok (.view v) := by
  rw [find, ofText?, VectorRegister.ofName?_eq_none h, h]
  rfl

theorem find_vector {name : String} {x : VectorRegister} (h : VectorRegister.ofName? name.toList = some x) :
    find name = .ok (.vector x) := by
  rw [find, ofText?, h]

end RegisterName

end LongMode

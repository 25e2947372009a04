import LongMode.Text.Letter

/-!
# Letter case

* `toLower_cases` and `toUpper_cases`: a character is its own small letter, unless it is one of the twenty-six
  capitals, and the other way round.
* `apply_toLower`: a function that does not tell the two cases of any letter apart does not see small letters.
* `takeWhile_lower`, `dropWhile_lower`, `filter_lower` and `all_lower`: what such functions find in a text they find in
  small letters; `isIdentifier_lower` is one case.
* `not_mem_of_lower`, `mem_lower` and `count_lower`: what is not a letter occurs in a text just where it occurs in small
  letters.
-/

namespace LongMode.Text

private theorem exists_ofNat {k : Nat} {c : Char} (hlow : k ≤ c.toNat) (hhigh : c.toNat ≤ k + 25) :
    ∃ n < 26, c = Char.ofNat (k + n) :=
  ⟨c.toNat - k, by omega, by rw [Nat.add_sub_cancel' hlow, Char.ofNat_toNat]⟩

theorem toLower_cases (c : Char) :
    c.toLower = c ∨ ∃ n < 26, c = Char.ofNat (65 + n) ∧ c.toLower = Char.ofNat (97 + n) := by
  by_cases hc : 'A'.val ≤ c.val ∧ c.val ≤ 'Z'.val
  · have hlower : ∀ n < 26, (Char.ofNat (65 + n)).toLower = Char.ofNat (97 + n) := by decide
    obtain ⟨n, hn, rfl⟩ : ∃ n < 26, c = Char.ofNat (65 + n) :=
      exists_ofNat (UInt32.le_iff_toNat_le.1 hc.1) (UInt32.le_iff_toNat_le.1 hc.2)
    exact .inr ⟨n, hn, rfl, hlower n hn⟩
  · exact .inl (dif_neg hc)

theorem toUpper_cases (c : Char) :
    c.toUpper = c ∨ ∃ n < 26, c = Char.ofNat (97 + n) ∧ c.toUpper = Char.ofNat (65 + n) := by
  by_cases hc : 'a'.val ≤ c.val ∧ c.val ≤ 'z'.val
  · have hupper : ∀ n < 26, (Char.ofNat (97 + n)).toUpper = Char.ofNat (65 + n) := by decide
    obtain ⟨n, hn, rfl⟩ : ∃ n < 26, c = Char.ofNat (97 + n) :=
      exists_ofNat (UInt32.le_iff_toNat_le.1 hc.1) (UInt32.le_iff_toNat_le.1 hc.2)
    exact .inr ⟨n, hn, rfl, hupper n hn⟩
  · exact .inl (dif_neg hc)

/-- What is the same for the two cases of every letter is the same for every character and its small letter. -/
theorem apply_toLower {α : Type} {f : Char → α} (h : ∀ n < 26, f (Char.ofNat (97 + n)) = f (Char.ofNat (65 + n)))
    (c : Char) : f c.toLower = f c := by
  obtain hc | ⟨n, hn, rfl, hc⟩ := toLower_cases c
  · rw [hc]
  · rw [hc, h n hn]

/-- A character that is no letter is the small letter of itself only. -/
theorem toLower_eq_iff {x : Char} (h : ∀ n < 26, Char.ofNat (97 + n) = x ↔ Char.ofNat (65 + n) = x) {c : Char} :
    c.toLower = x ↔ c = x := by
  obtain hc | ⟨n, hn, rfl, hc⟩ := toLower_cases c
  · rw [hc]
  · rw [hc, h n hn]

/-! ### Texts -/

section

variable {p : Char → Bool} {word : String} {c : Char}

@[simp] theorem lower_lower (s : List Char) : lower (lower s) = lower s := by
  rw [lower, lower, List.map_map]
  exact List.map_congr_left fun c _ => apply_toLower (f := Char.toLower) (by decide) c

@[simp] theorem length_lower (s : List Char) : (lower s).length = s.length := List.length_map _

@[simp] theorem lower_eq_nil {s : List Char} : lower s = [] ↔ s = [] := List.map_eq_nil_iff

@[simp] theorem spells_lower (s : List Char) (word : String) : spells (lower s) word = spells s word := by
  rw [spells, spells, lower_lower]

theorem takeWhile_lower (hp : ∀ c, p c.toLower = p c) (s : List Char) :
    (lower s).takeWhile p = lower (s.takeWhile p) := by
  have hcomp : p ∘ Char.toLower = p := funext hp
  rw [lower, List.takeWhile_map, hcomp, lower]

theorem dropWhile_lower (hp : ∀ c, p c.toLower = p c) (s : List Char) :
    (lower s).dropWhile p = lower (s.dropWhile p) := by
  have hcomp : p ∘ Char.toLower = p := funext hp
  rw [lower, List.dropWhile_map, hcomp, lower]

theorem filter_lower (hp : ∀ c, p c.toLower = p c) (s : List Char) : (lower s).filter p = lower (s.filter p) := by
  have hcomp : p ∘ Char.toLower = p := funext hp
  rw [lower, List.filter_map, hcomp, lower]

theorem all_lower (hp : ∀ c, p c.toLower = p c) (s : List Char) : (lower s).all p = s.all p := by
  have hcomp : p ∘ Char.toLower = p := funext hp
  rw [lower, List.all_map, hcomp]

theorem mem_lower (hc : ∀ x : Char, x.toLower = c ↔ x = c) {s : List Char} : c ∈ lower s ↔ c ∈ s := by
  rw [lower, List.mem_map]
  simp only [hc, exists_eq_right]

/-- A character that is no letter occurs as often. -/
theorem count_lower (hc : ∀ x : Char, x.toLower = c ↔ x = c) (s : List Char) : (lower s).count c = s.count c := by
  have hcomp : (fun x => x == c) ∘ Char.toLower = fun x => x == c :=
    funext fun x => Bool.eq_iff_iff.2 (by simp only [Function.comp_apply, beq_iff_eq, hc])
  rw [List.count_eq_countP, List.count_eq_countP, lower, List.countP_map, hcomp]

end

/-! ### Identifiers -/

private theorem startsIdentifier_toLower (c : Char) : startsIdentifier c.toLower = startsIdentifier c :=
  apply_toLower (by decide) c

private theorem continuesIdentifier_toLower (c : Char) : continuesIdentifier c.toLower = continuesIdentifier c :=
  apply_toLower (by decide) c

theorem isIdentifier_lower (s : List Char) : isIdentifier (lower s) = isIdentifier s := by
  cases s with
  | nil => rfl
  | cons c r =>
    have hrest : (lower r).all continuesIdentifier = r.all continuesIdentifier :=
      all_lower continuesIdentifier_toLower r
    show (startsIdentifier c.toLower && (lower r).all continuesIdentifier) = _
    rw [startsIdentifier_toLower, hrest, isIdentifier]

theorem not_mem_of_lower {c : Char} (hc : c.toLower = c) {s : List Char} (h : c ∉ lower s) : c ∉ s := by
  intro hmem
  have hlower : c.toLower ∈ lower s := List.mem_map_of_mem hmem
  rw [hc] at hlower
  exact h hlower

end LongMode.Text

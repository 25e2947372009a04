import LongMode.Proofs.Text.Letter
import LongMode.Text.Blank

/-!
# Text without white space at its ends

* `mem_trim`: trimming keeps every character that is not white space; `trim_ne_nil` says when there is one.
* `getLast?_trim` and `trim_eq_cons`: a trimmed text neither ends nor starts with white space.
* `trim_lower`, `firstWord_lower` and `withoutBlanks_lower`: letter case does not matter to white space.
* `trim_eq_self`: a text whose first and last characters are not white space stays as it is.
-/

namespace LongMode.Text

variable {s : List Char} {c : Char}

private theorem mem_dropWhile (hc : c ∈ s) (hb : isBlank c = false) : c ∈ s.dropWhile isBlank := by
  rw [← List.takeWhile_append_dropWhile (p := isBlank) (l := s), List.mem_append] at hc
  refine hc.resolve_left fun h => ?_
  have hall := List.all_takeWhile (p := isBlank) (l := s)
  rw [List.all_eq_true] at hall
  exact Bool.false_ne_true (hb.symm.trans (hall c h))

theorem mem_trim (hc : c ∈ s) (hb : isBlank c = false) : c ∈ trim s := by
  have hl : c ∈ trimLeft s := mem_dropWhile hc hb
  rw [trim, trimRight, List.mem_reverse]
  exact mem_dropWhile (List.mem_reverse.2 hl) hb

theorem trim_ne_nil : trim s ≠ [] ↔ ∃ c ∈ s, isBlank c = false := by
  constructor
  · intro h
    by_cases hall : ∃ c ∈ s, isBlank c = false
    · exact hall
    · have hblank : ∀ c ∈ s, isBlank c = true := fun c hc => by simpa using fun hb => hall ⟨c, hc, hb⟩
      have hd : (s ++ []).dropWhile isBlank = [].dropWhile isBlank := List.dropWhile_append_of_pos hblank
      have hl : trimLeft s = [] := by simpa [trimLeft] using hd
      exact absurd (by rw [trim, hl]; rfl) h
  · rintro ⟨c, hc, hb⟩
    exact List.ne_nil_of_mem (mem_trim hc hb)

theorem trim_eq_nil : trim s = [] ↔ ∀ c ∈ s, isBlank c = true := by
  constructor
  · intro h c hc
    cases hb : isBlank c with
    | true => rfl
    | false => exact absurd h (trim_ne_nil.2 ⟨c, hc, hb⟩)
  · intro h
    cases ht : trim s with
    | nil => rfl
    | cons c rest =>
      obtain ⟨d, hd, hb⟩ := trim_ne_nil.1 (ht ▸ List.cons_ne_nil c rest)
      rw [h d hd] at hb
      cases hb

theorem trimLeft_eq_self (h : ∀ c, s.head? = some c → isBlank c = false) : trimLeft s = s := by
  cases s with
  | nil => rfl
  | cons c s => exact List.dropWhile_cons_of_neg (by simp [h c rfl])

theorem takeWhile_eq_nil (h : ∀ c, s.head? = some c → isBlank c = false) : s.takeWhile isBlank = [] := by
  cases s with
  | nil => rfl
  | cons c s => exact List.takeWhile_cons_of_neg (by simp [h c rfl])

theorem trimRight_eq_self (h : ∀ c, s.getLast? = some c → isBlank c = false) : trimRight s = s := by
  have hr : s.reverse.dropWhile isBlank = s.reverse := trimLeft_eq_self fun c hc => h c (by simpa using hc)
  rw [trimRight, hr, List.reverse_reverse]

theorem trim_eq_self (hl : ∀ c, s.head? = some c → isBlank c = false)
    (hr : ∀ c, s.getLast? = some c → isBlank c = false) : trim s = s := by
  rw [trim, trimLeft_eq_self hl, trimRight_eq_self hr]

theorem trim_cons_of_blank (h : isBlank c = true) : trim (c :: s) = trim s := by
  rw [trim, trimLeft, List.dropWhile_cons_of_pos h]
  rfl

theorem withoutBlanks_eq_self (h : ∀ c ∈ s, isBlank c = false) : withoutBlanks s = s :=
  List.filter_eq_self.2 fun c hc => by simp [h c hc]

/-- A word ends at the first white space. -/
theorem firstWord_append (h : ∀ c ∈ s, isBlank c = false) {t : List Char}
    (ht : ∀ c, t.head? = some c → isBlank c = true) : firstWord (s ++ t) = s := by
  rw [firstWord, List.takeWhile_append_of_pos fun c hc => by simp [h c hc]]
  cases t with
  | nil => simp
  | cons c t => simp [ht c rfl]

theorem isBlank_of_mem_firstWord (hc : c ∈ firstWord s) : isBlank c = false := by
  have hall := List.all_takeWhile (p := fun c => !isBlank c) (l := s)
  rw [List.all_eq_true] at hall
  simpa using hall c hc

/-! ### White space at an end -/

theorem firstWord_append_blank (s : List Char) {t : List Char} (ht : ∀ c ∈ t, isBlank c = true) :
    firstWord (s ++ t) = firstWord s := by
  have hnone : t.takeWhile (fun c => !isBlank c) = [] := by
    cases t with
    | nil => rfl
    | cons c t => simp [ht c List.mem_cons_self]
  rw [firstWord, List.takeWhile_append, hnone, List.append_nil]
  split
  · rename_i h
    rw [firstWord, (List.takeWhile_prefix _).eq_of_length h]
  · rfl

theorem trimLeft_eq_nil : trimLeft s = [] ↔ ∀ c ∈ s, isBlank c = true := by
  rw [trimLeft]
  induction s with
  | nil => simp
  | cons c s ih => cases hc : isBlank c <;> simp [hc, ih]

theorem trimLeft_append_left (s : List Char) {t : List Char} (ht : ∀ c ∈ t, isBlank c = true) :
    trimLeft (t ++ s) = trimLeft s :=
  List.dropWhile_append_of_pos ht

/-- White space after a text that holds something else stays where it is. -/
theorem trimLeft_append_right (hs : trimLeft s ≠ []) (t : List Char) : trimLeft (s ++ t) = trimLeft s ++ t := by
  rw [trimLeft, List.dropWhile_append, if_neg (by simpa [trimLeft] using hs)]
  rfl

theorem trim_append_right (s : List Char) {t : List Char} (ht : ∀ c ∈ t, isBlank c = true) :
    trim (s ++ t) = trim s := by
  by_cases hs : trimLeft s = []
  · have hall : ∀ c ∈ s ++ t, isBlank c = true := by
      intro c hc
      exact (List.mem_append.1 hc).elim (trimLeft_eq_nil.1 hs c) (ht c)
    rw [trim, trim, hs, trimLeft_eq_nil.2 hall]
  · have hreverse : (trimLeft s ++ t).reverse.dropWhile isBlank = (trimLeft s).reverse.dropWhile isBlank := by
      rw [List.reverse_append, List.dropWhile_append_of_pos fun c hc => ht c (List.mem_reverse.1 hc)]
    rw [trim, trimLeft_append_right hs, trimRight, hreverse]
    rfl

/-- What trimming takes away is white space, in front as much of it as there is. -/
theorem exists_append_trim (s : List Char) : ∃ trail, s = s.takeWhile isBlank ++ (trim s ++ trail) ∧
    (∀ c ∈ s.takeWhile isBlank, isBlank c = true) ∧ ∀ c ∈ trail, isBlank c = true := by
  have hblank : ∀ u : List Char, ∀ c ∈ u.takeWhile isBlank, isBlank c = true := fun u =>
    List.all_eq_true.1 List.all_takeWhile
  refine ⟨((trimLeft s).reverse.takeWhile isBlank).reverse, ?_, hblank s, ?_⟩
  · rw [trim, trimRight, ← List.reverse_append, List.takeWhile_append_dropWhile, List.reverse_reverse, trimLeft,
      List.takeWhile_append_dropWhile]
  · intro c hc
    exact hblank _ c (List.mem_reverse.1 hc)

theorem trim_prefix (s : List Char) : trim s <+: trimLeft s := by
  rw [← List.reverse_suffix, trim, trimRight, List.reverse_reverse]
  exact List.dropWhile_suffix _

/-- What is left of a text that is trimmed ends with no white space. -/
theorem getLast?_trim (h : (trim s).getLast? = some c) : isBlank c = false := by
  have hnot := List.head?_dropWhile_not isBlank (trimLeft s).reverse
  rw [trim, trimRight, List.getLast?_reverse] at h
  rw [h] at hnot
  exact hnot

/-- What is left of a text that is trimmed starts with no white space. -/
theorem trim_eq_cons (h : trim s ≠ []) : ∃ c r, trim s = c :: r ∧ isBlank c = false := by
  have hleft : trimLeft s ≠ [] := fun hnil => h (by rw [trim, hnil]; rfl)
  obtain ⟨c, t, hc⟩ := List.exists_cons_of_ne_nil hleft
  have hblank : isBlank c = false := by
    have hhead := List.head?_dropWhile_not isBlank s
    rw [show s.dropWhile isBlank = c :: t from hc] at hhead
    exact hhead
  refine ⟨c, (t.reverse.dropWhile isBlank).reverse, ?_, hblank⟩
  rw [trim, hc, trimRight, List.reverse_cons, List.dropWhile_append, List.dropWhile_cons_of_neg (by simp [hblank])]
  split
  · rename_i hempty
    rw [List.isEmpty_iff.1 hempty]
    rfl
  · rw [List.reverse_append]
    rfl

theorem head?_trim (h : (trim s).head? = some c) : isBlank c = false := by
  have hne : trim s ≠ [] := by
    intro hnil
    rw [hnil] at h
    cases h
  obtain ⟨d, rest, htrim, hd⟩ := trim_eq_cons hne
  rw [htrim] at h
  cases h
  exact hd

/-! ### Letter case -/

theorem isBlank_toLower (c : Char) : isBlank c.toLower = isBlank c := apply_toLower (by decide) c

theorem trimLeft_lower (s : List Char) : trimLeft (lower s) = lower (trimLeft s) := dropWhile_lower isBlank_toLower s

theorem trim_lower (s : List Char) : trim (lower s) = lower (trim s) := by
  have hreverse : ∀ t : List Char, (lower t).reverse = lower t.reverse := fun t => (List.map_reverse ..).symm
  rw [trim, trim, trimLeft_lower, trimRight, trimRight, hreverse, dropWhile_lower isBlank_toLower, hreverse]

theorem firstWord_lower (s : List Char) : firstWord (lower s) = lower (firstWord s) := by
  have hink : ∀ c : Char, (!isBlank c.toLower) = !isBlank c := fun c => by rw [isBlank_toLower]
  exact takeWhile_lower hink s

theorem withoutBlanks_lower (s : List Char) : withoutBlanks (lower s) = lower (withoutBlanks s) := by
  have hink : ∀ c : Char, (!isBlank c.toLower) = !isBlank c := fun c => by rw [isBlank_toLower]
  exact filter_lower hink s

end LongMode.Text

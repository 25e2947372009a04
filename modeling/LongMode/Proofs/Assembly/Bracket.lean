import LongMode.Proofs.Assembly.Pieces

/-!
# Brackets by their numbers

The scan for operands counts how many brackets are open.  Here the same is said of the numbers of opening and closing
brackets in the beginnings of a text.

* `ClosesWithin`: no beginning closes more brackets than it opens, if some are open in front of the text.  This is so
  just where the scan finds no bracket that closes none (`strayClose?_eq_none_iff`).
* `Balanced`: no beginning closes more than it opens, and the whole text closes what it opens (`balanced_iff`).
* `passes_topLevelPieces`: the pieces of a balanced text are balanced.
-/

namespace LongMode.Assembly

/-- With `d` brackets open in front of the text, no beginning of it closes a bracket that is not open. -/
def ClosesWithin (d : Nat) (s : List Char) : Prop := ∀ p, p <+: s → p.count ']' ≤ d + p.count '['

/-- Brackets never close before they open, and all of them close. -/
structure Balanced (s : List Char) : Prop where
  closes : ∀ p, p <+: s → p.count ']' ≤ p.count '['
  count_eq : s.count '[' = s.count ']'

variable {s t lead trail : List Char} {d e column : Nat} {c : Char}

/-! ### The scan -/

/-- The brackets open after a character, as long as it does not close one that is not open. -/
theorem depthAfter_add_count (h : ¬ (c = ']' ∧ d = 0)) : depthAfter d c + [c].count ']' = d + [c].count '[' := by
  unfold depthAfter
  by_cases hopen : c = '['
  · subst hopen
    simp
  · by_cases hclose : c = ']'
    · subst hclose
      have hd : d ≠ 0 := fun hd => h ⟨rfl, hd⟩
      simp
      omega
    · simp [hopen, hclose]

theorem count_cons_eq (a c : Char) (s : List Char) : (c :: s).count a = [c].count a + s.count a := by
  rw [← List.singleton_append, List.count_append]

theorem closesWithin_cons (h : ¬ (c = ']' ∧ d = 0)) : ClosesWithin d (c :: s) ↔ ClosesWithin (depthAfter d c) s := by
  have hdepth := depthAfter_add_count h
  constructor
  · intro hs p hp
    have hcons := hs (c :: p) ((List.prefix_cons_inj c).2 hp)
    rw [count_cons_eq ']' c p, count_cons_eq '[' c p] at hcons
    omega
  · intro hs p hp
    rcases List.prefix_cons_iff.1 hp with rfl | ⟨q, rfl, hq⟩
    · exact Nat.zero_le _
    · have hrest := hs q hq
      rw [count_cons_eq ']' c q, count_cons_eq '[' c q]
      omega

theorem ClosesWithin.not_stray (h : ClosesWithin d (c :: s)) : ¬ (c = ']' ∧ d = 0) := by
  rintro ⟨rfl, rfl⟩
  have hfirst := h [']'] ⟨s, rfl⟩
  exact absurd hfirst (by decide)

theorem strayClose?_eq_none_iff : strayClose? d column s = none ↔ ClosesWithin d s := by
  induction s generalizing d column with
  | nil =>
    refine ⟨fun _ p hp => ?_, fun _ => rfl⟩
    rw [List.prefix_nil.1 hp]
    exact Nat.zero_le _
  | cons c s ih =>
    rw [strayClose?]
    split
    · rename_i h
      constructor
      · intro hsome
        cases hsome
      · intro hs
        exact absurd h hs.not_stray
    · rename_i h
      rw [ih, closesWithin_cons h]

theorem ClosesWithin.depth (h : ClosesWithin d s) : s.foldl depthAfter d + s.count ']' = d + s.count '[' := by
  induction s generalizing d with
  | nil => rfl
  | cons c s ih =>
    have hrest := ih ((closesWithin_cons h.not_stray).1 h)
    have hdepth := depthAfter_add_count h.not_stray
    rw [List.foldl_cons, count_cons_eq ']' c s, count_cons_eq '[' c s]
    omega

theorem ClosesWithin.of_prefix (h : ClosesWithin d s) (ht : t <+: s) : ClosesWithin d t :=
  fun p hp => h p (hp.trans ht)

/-! ### Balanced texts -/

theorem closesWithin_zero : ClosesWithin 0 s ↔ ∀ p, p <+: s → p.count ']' ≤ p.count '[' := by
  unfold ClosesWithin
  simp only [Nat.zero_add]

theorem Balanced.closesWithin (h : Balanced s) : ClosesWithin 0 s := closesWithin_zero.2 h.closes

theorem balanced_iff (column : Nat) : Balanced s ↔ strayClose? 0 column s = none ∧ openBrackets s = 0 := by
  rw [strayClose?_eq_none_iff]
  constructor
  · intro h
    have hdepth := h.closesWithin.depth
    have hcount := h.count_eq
    refine ⟨h.closesWithin, ?_⟩
    rw [openBrackets]
    omega
  · rintro ⟨h, hopen⟩
    have hdepth := h.depth
    rw [openBrackets] at hopen
    exact ⟨closesWithin_zero.1 h, by omega⟩

theorem Passes.balanced (h : Passes 0 0 s) : Balanced s := by
  have hcloses := h.closes 0 []
  rw [List.append_nil] at hcloses
  exact (balanced_iff 0).2 ⟨hcloses, h.depth⟩

/-- What stands around a balanced text without brackets of its own may be left out. -/
theorem Balanced.of_append (h : Balanced (lead ++ (s ++ trail))) (hlead : ∀ c ∈ lead, isDelimiter c = false)
    (htrail : ∀ c ∈ trail, isDelimiter c = false) : Balanced s := by
  have hnone : ∀ {u : List Char}, (∀ c ∈ u, isDelimiter c = false) → u.count '[' = 0 ∧ u.count ']' = 0 := by
    intro u hu
    constructor
    · exact List.count_eq_zero.2 fun hc => absurd (hu _ hc) (by decide)
    · exact List.count_eq_zero.2 fun hc => absurd (hu _ hc) (by decide)
  obtain ⟨hopen, hclose⟩ := hnone hlead
  obtain ⟨hopen', hclose'⟩ := hnone htrail
  constructor
  · intro p hp
    have hwhole := h.closes (lead ++ p) ((List.prefix_append_right_inj lead).2 (hp.trans (List.prefix_append s trail)))
    rw [List.count_append, List.count_append] at hwhole
    omega
  · have hwhole := h.count_eq
    rw [List.count_append, List.count_append, List.count_append, List.count_append] at hwhole
    omega

theorem Balanced.trim (h : Balanced s) : Balanced (Text.trim s) := by
  obtain ⟨trail, htext, hlead, htrail⟩ := Text.exists_append_trim s
  rw [htext] at h
  exact h.of_append (isDelimiter_of_blank hlead) (isDelimiter_of_blank htrail)

/-! ### Pieces -/

/-- The first piece of a text closes what is open in front of it, and the others are balanced. -/
theorem passes_topLevelPieces (hclose : strayClose? d column s = none) (hopen : s.foldl depthAfter d = 0) :
    ∃ first rest, topLevelPieces d s = first :: rest ∧ Passes d 0 first ∧ ∀ p ∈ rest, Passes 0 0 p := by
  induction s generalizing d column with
  | nil =>
    obtain rfl : d = 0 := hopen
    exact ⟨[], [], rfl, Passes.nil, nofun⟩
  | cons c s ih =>
    rw [strayClose?] at hclose
    split at hclose
    · cases hclose
    · rename_i hstray
      obtain ⟨first, rest, hpieces, hfirst, hrest⟩ := ih hclose hopen
      rw [topLevelPieces]
      by_cases hcut : c = ',' ∧ d = 0
      · obtain ⟨rfl, rfl⟩ := hcut
        have hdepth : depthAfter 0 ',' = 0 := by decide
        rw [hdepth] at hpieces hfirst
        rw [if_pos ⟨rfl, rfl⟩, hpieces]
        exact ⟨[], first :: rest, rfl, Passes.nil, List.forall_mem_cons.2 ⟨hfirst, hrest⟩⟩
      · have hone : Passes d (depthAfter d c) [c] :=
          Passes.singleton (fun hc hd => hcut ⟨hc, hd⟩) (fun hc hd => hstray ⟨hc, hd⟩)
        rw [if_neg hcut, hpieces]
        exact ⟨c :: first, rest, rfl, hone.append hfirst, hrest⟩

theorem balanced_topLevelPieces (h : Balanced s) : ∀ p ∈ topLevelPieces 0 s, Passes 0 0 p := by
  obtain ⟨hclose, hopen⟩ := (balanced_iff 0).1 h
  obtain ⟨first, rest, hpieces, hfirst, hrest⟩ := passes_topLevelPieces hclose hopen
  rw [hpieces]
  exact List.forall_mem_cons.2 ⟨hfirst, hrest⟩

end LongMode.Assembly

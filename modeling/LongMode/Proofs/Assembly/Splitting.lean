import LongMode.Proofs.Assembly.Bracket
import LongMode.Proofs.Assembly.Position

/-!
# The operands of a text are its parts between outer commas

A comma is outer where as many brackets have closed as have opened.  Said with these commas alone, and without the
scan, the operands are all that a text holds but white space and those commas.

* `IsOuterComma`, `outerCommas`: the commas that cut, of which there is one fewer than pieces
  (`length_topLevelPieces`).
* `IsBlankPart`: white space where an operand should stand.  There is some just where a piece is blank
  (`IsBlankPart.mem`, `exists_isBlankPart`).
* `IsSplit`: what the operands of a text are, by their number, their columns and what stands between them
  (`isSplit_of_splitOperands`).
* `splitOperands_exact`: the operands that are read, and when none are.
-/

namespace LongMode.Assembly

/-- A comma at `k` behind which no bracket is left open, with `d` brackets open in front of the text. -/
def IsOuterComma (d : Nat) (s : List Char) (k : Nat) : Prop :=
  s[k]? = some ',' ∧ d + (s.take k).count '[' = (s.take k).count ']'

instance (d : Nat) (s : List Char) : DecidablePred (IsOuterComma d s) := fun _ => inferInstanceAs (Decidable (_ ∧ _))

/-- Where the commas outside brackets stand. -/
def outerCommas (d : Nat) (s : List Char) : List Nat := (List.range s.length).filter (IsOuterComma d s ·)

/-- White space next to an outer comma, up to another one or to an end of the text. -/
structure IsBlankPart (s front part back : List Char) : Prop where
  eq : s = front ++ (part ++ back)
  blank : ∀ c ∈ part, Text.isBlank c = true
  start : front = [] ∨ ∃ k, front.length = k + 1 ∧ IsOuterComma 0 s k
  stop : back = [] ∨ IsOuterComma 0 s (front.length + part.length)
  comma : front ≠ [] ∨ back ≠ []

/-- The parts of a text that starts at a column: trimmed, balanced, and with one outer comma between any two. -/
structure IsSplit (column : Nat) (s : List Char) (pieces : List Piece) : Prop where
  length_eq : pieces.length = (outerCommas 0 s).length + 1
  ne_nil : ∀ p ∈ pieces, p.text ≠ []
  trimmed : ∀ p ∈ pieces, ∀ c, p.text.head? = some c ∨ p.text.getLast? = some c → Text.isBlank c = false
  stands : ∀ p ∈ pieces, column ≤ p.column ∧ StandsAt s (p.column - column) p.text
  balanced : ∀ p ∈ pieces, Balanced p.text
  between : ∀ k p q, pieces[k]? = some p → pieces[k + 1]? = some q → ∃ trail lead,
    (∀ c ∈ trail, Text.isBlank c = true) ∧ (∀ c ∈ lead, Text.isBlank c = true) ∧
    q.column = p.column + p.text.length + (trail ++ ',' :: lead).length ∧
    StandsAt s (p.column - column + p.text.length) (trail ++ ',' :: lead)

variable {text s t front part back lead : List Char} {texts : List (List Char)} {d column k : Nat} {c : Char}

/-! ### Outer commas -/

theorem isOuterComma_zero : IsOuterComma d (c :: s) 0 ↔ c = ',' ∧ d = 0 := by
  simp [IsOuterComma]

theorem isOuterComma_succ (h : ¬ (c = ']' ∧ d = 0)) :
    IsOuterComma d (c :: s) (k + 1) ↔ IsOuterComma (depthAfter d c) s k := by
  have hdepth := depthAfter_add_count h
  rw [IsOuterComma, IsOuterComma, List.getElem?_cons_succ, List.take_succ_cons, count_cons_eq '[' c,
    count_cons_eq ']' c]
  have hsum : d + ([c].count '[' + (s.take k).count '[') = [c].count ']' + (s.take k).count ']' ↔
      depthAfter d c + (s.take k).count '[' = (s.take k).count ']' := by omega
  rw [hsum]

theorem length_outerCommas_cons (h : ¬ (c = ']' ∧ d = 0)) : (outerCommas d (c :: s)).length =
    (if c = ',' ∧ d = 0 then 1 else 0) + (outerCommas (depthAfter d c) s).length := by
  have htail : ∀ k, decide (IsOuterComma d (c :: s) (k + 1)) = decide (IsOuterComma (depthAfter d c) s k) := fun k =>
    decide_eq_decide.2 (isOuterComma_succ h)
  rw [outerCommas, outerCommas, ← List.countP_eq_length_filter, ← List.countP_eq_length_filter, List.length_cons,
    List.range_succ_eq_map, List.countP_cons, List.countP_map, Nat.add_comm]
  have hshift : ((fun k => decide (IsOuterComma d (c :: s) k)) ∘ Nat.succ) =
      fun k => decide (IsOuterComma (depthAfter d c) s k) := funext htail
  simp only [hshift, isOuterComma_zero, decide_eq_true_eq]

theorem length_prepend (c : Char) {pieces : List (List Char)} (h : pieces ≠ []) :
    (prepend c pieces).length = pieces.length := by
  cases pieces with
  | nil => exact absurd rfl h
  | cons p rest => rfl

/-- Every comma that cuts makes one piece more. -/
theorem length_topLevelPieces (h : ClosesWithin d s) :
    (topLevelPieces d s).length = (outerCommas d s).length + 1 := by
  induction s generalizing d with
  | nil => rfl
  | cons c s ih =>
    have hrest := ih ((closesWithin_cons h.not_stray).1 h)
    rw [topLevelPieces, length_outerCommas_cons h.not_stray]
    by_cases hcut : c = ',' ∧ d = 0
    · obtain ⟨rfl, rfl⟩ := hcut
      have hdepth : depthAfter 0 ',' = 0 := by decide
      rw [hdepth] at hrest ⊢
      rw [if_pos ⟨rfl, rfl⟩, if_pos ⟨rfl, rfl⟩, List.length_cons, hrest]
      omega
    · rw [if_neg hcut, if_neg hcut, length_prepend c (topLevelPieces_ne_nil _ s), hrest, Nat.zero_add]

theorem isOuterComma_append (hf : front.count '[' = front.count ']') :
    IsOuterComma 0 (front ++ ',' :: back) front.length := by
  constructor
  · rw [List.getElem?_append_right (Nat.le_refl _), Nat.sub_self]
    rfl
  · rw [List.take_left, Nat.zero_add, hf]

/-- An outer comma with what is in front of it and behind it. -/
theorem IsOuterComma.exists_append (h : IsOuterComma 0 s k) :
    s = s.take k ++ ',' :: s.drop (k + 1) ∧ (s.take k).count '[' = (s.take k).count ']' ∧ k < s.length := by
  obtain ⟨hcomma, hcount⟩ := h
  obtain ⟨hk, hget⟩ := List.getElem?_eq_some_iff.1 hcomma
  refine ⟨?_, by omega, hk⟩
  rw [← hget, ← List.drop_eq_getElem_cons hk, List.take_append_drop]

/-! ### Blank parts -/

theorem topLevelPieces_append_comma (h : front.foldl depthAfter d = 0) (back : List Char) :
    topLevelPieces d (front ++ ',' :: back) = topLevelPieces d front ++ topLevelPieces 0 back := by
  induction front generalizing d with
  | nil =>
    obtain rfl : d = 0 := h
    simp [topLevelPieces]
  | cons c front ih =>
    rw [List.cons_append, topLevelPieces, topLevelPieces]
    split
    · rename_i hcut
      obtain ⟨rfl, rfl⟩ := hcut
      have hdepth : depthAfter 0 ',' = 0 := by decide
      rw [List.foldl_cons, hdepth] at h
      rw [ih h, List.cons_append]
    · rw [ih h]
      obtain ⟨p, rest, hp⟩ := List.exists_cons_of_ne_nil (topLevelPieces_ne_nil (depthAfter d c) front)
      rw [hp]
      rfl

theorem topLevelPieces_of_blank (h : ∀ c ∈ s, Text.isBlank c = true) : topLevelPieces 0 s = [s] := by
  have hs : ∀ t ∈ [s], Passes 0 0 t := by
    intro t ht
    rw [List.mem_singleton.1 ht]
    exact Passes.of_plain (isDelimiter_of_blank h)
  have hpieces := topLevelPieces_intercalate (List.cons_ne_nil s []) hs
  rwa [List.intercalate_singleton] at hpieces

theorem intercalate_append {others : List (List Char)} (hne : texts ≠ []) (hne' : others ≠ []) :
    [','].intercalate (texts ++ others) = [','].intercalate texts ++ ',' :: [','].intercalate others := by
  induction texts with
  | nil => exact absurd rfl hne
  | cons t rest ih =>
    cases rest with
    | nil =>
      obtain ⟨u, others, rfl⟩ := List.exists_cons_of_ne_nil hne'
      rw [List.singleton_append, List.intercalate_cons_cons, List.intercalate_singleton, List.append_assoc]
      rfl
    | cons u rest =>
      have hrest := ih (List.cons_ne_nil u rest)
      rw [List.cons_append] at hrest
      rw [List.cons_append, List.cons_append, List.intercalate_cons_cons, hrest, List.intercalate_cons_cons,
        List.append_assoc, List.append_assoc, List.append_assoc]

/-- What stands in front of the pieces from one on, and behind the first of them. -/
private theorem intercalate_around {before : List (List Char)} (h : ∀ t ∈ before, Passes 0 0 t) (p : List Char)
    (after : List (List Char)) : ∃ front back, [','].intercalate (before ++ p :: after) = front ++ (p ++ back) ∧
      (front = [] ∨ ∃ u, front = u ++ [','] ∧ Balanced u) ∧ (back = [] ∨ ∃ v, back = ',' :: v) := by
  have hback : ∃ back, [','].intercalate (p :: after) = p ++ back ∧ (back = [] ∨ ∃ v, back = ',' :: v) := by
    cases after with
    | nil => exact ⟨[], by rw [List.intercalate_singleton, List.append_nil], .inl rfl⟩
    | cons q after =>
      refine ⟨',' :: [','].intercalate (q :: after), ?_, .inr ⟨_, rfl⟩⟩
      rw [List.intercalate_cons_cons, List.append_assoc]
      rfl
  obtain ⟨back, hp, hafter⟩ := hback
  cases before with
  | nil => exact ⟨[], back, hp, .inl rfl, hafter⟩
  | cons q before =>
    refine ⟨[','].intercalate (q :: before) ++ [','], back, ?_, .inr ⟨_, rfl, ?_⟩, hafter⟩
    · rw [intercalate_append (List.cons_ne_nil q before) (List.cons_ne_nil p after), hp, List.append_assoc]
      rfl
    · exact (balanced_iff 0).2 (brackets_intercalate h 0)

theorem Balanced.depth_take (h : Balanced s) (hk : (s.take k).count '[' = (s.take k).count ']') :
    (s.take k).foldl depthAfter 0 = 0 := by
  have hdepth := (h.closesWithin.of_prefix (List.take_prefix k s)).depth
  omega

theorem IsBlankPart.mem (h : IsBlankPart s front part back) (hs : Balanced s) : part ∈ topLevelPieces 0 s := by
  obtain ⟨heq, hblank, hstart, hstop, -⟩ := h
  have hpart := Passes.of_plain (d := 0) (isDelimiter_of_blank hblank)
  have hbegins : part ∈ topLevelPieces 0 (part ++ back) := by
    rcases hstop with rfl | hstop
    · rw [List.append_nil, topLevelPieces_of_blank hblank]
      exact List.mem_singleton_self part
    · have hcomma := hstop.1
      rw [heq, List.getElem?_append_right (Nat.le_add_right _ _), Nat.add_sub_cancel_left,
        List.getElem?_append_right (Nat.le_refl _), Nat.sub_self] at hcomma
      cases back with
      | nil => cases hcomma
      | cons c back =>
        obtain rfl : c = ',' := Option.some.inj hcomma
        rw [topLevelPieces_append_comma hpart.depth, topLevelPieces_of_blank hblank]
        exact List.mem_append_left _ (List.mem_singleton_self part)
  rcases hstart with rfl | ⟨k, hlength, hcomma⟩
  · rwa [heq]
  · obtain ⟨hcut, hcount, -⟩ := hcomma.exists_append
    have hrest : s.drop (k + 1) = part ++ back := by
      rw [← hlength, heq, List.drop_left]
    rw [hcut, topLevelPieces_append_comma (hs.depth_take hcount), hrest]
    exact List.mem_append_right _ hbegins

theorem exists_isBlankPart (hs : Balanced s) (hink : ∃ c ∈ s, Text.isBlank c = false)
    (h : part ∈ topLevelPieces 0 s) (hblank : ∀ c ∈ part, Text.isBlank c = true) :
    ∃ front back, IsBlankPart s front part back := by
  have hpasses := balanced_topLevelPieces hs
  obtain ⟨before, after, hpieces⟩ := List.append_of_mem h
  rw [hpieces] at hpasses
  obtain ⟨front, back, heq, hfront, hback⟩ :=
    intercalate_around (fun t ht => hpasses t (List.mem_append_left _ ht)) part after
  rw [← hpieces, intercalate_topLevelPieces] at heq
  have hpart : Balanced part := (hpasses part (List.mem_append_right _ List.mem_cons_self)).balanced
  have hcount : front.count '[' = front.count ']' := by
    rcases hfront with rfl | ⟨u, rfl, hu⟩
    · rfl
    · rw [List.count_append, List.count_append, hu.count_eq]
      rfl
  refine ⟨front, back, heq, hblank, ?_, ?_, ?_⟩
  · rcases hfront with rfl | ⟨u, rfl, hu⟩
    · exact .inl rfl
    · refine .inr ⟨u.length, List.length_append, ?_⟩
      rw [heq, List.append_assoc]
      exact isOuterComma_append hu.count_eq
  · rcases hback with rfl | ⟨v, rfl⟩
    · exact .inl rfl
    · right
      rw [heq, ← List.append_assoc, ← List.length_append]
      refine isOuterComma_append ?_
      rw [List.count_append, List.count_append, hcount, hpart.count_eq]
  · cases front with
    | cons c front => exact .inl (List.cons_ne_nil c front)
    | nil =>
      right
      rintro rfl
      obtain ⟨c, hc, hb⟩ := hink
      rw [heq, List.nil_append, List.append_nil] at hc
      rw [hblank c hc] at hb
      cases hb

/-! ### Columns -/

theorem standsAt_append_left : StandsAt (lead ++ s) (lead.length + k) t ↔ StandsAt s k t := by
  rw [standsAt_iff, standsAt_iff, ← List.drop_drop, List.drop_left]

theorem le_column_of_placed {p : Piece} (hp : p ∈ placed column texts) : column ≤ p.column := by
  induction texts generalizing column with
  | nil => cases hp
  | cons s rest ih =>
    rw [placed, List.mem_cons] at hp
    rcases hp with rfl | hp
    · exact Nat.le_refl column
    · have hrest := ih hp
      omega

private theorem prefix_intercalate_cons (t : List Char) (rest : List (List Char)) :
    t <+: [','].intercalate (t :: rest) := by
  cases rest with
  | nil => exact ⟨[], by rw [List.append_nil, List.intercalate_singleton]⟩
  | cons u rest =>
    rw [List.intercalate_cons_cons, List.append_assoc]
    exact List.prefix_append t _

/-- Two pieces that follow each other have a comma between them. -/
theorem standsAt_placed_succ (h : StandsAt text column ([','].intercalate texts)) {p q : Piece}
    (hp : (placed column texts)[k]? = some p) (hq : (placed column texts)[k + 1]? = some q) :
    q.column = p.column + p.text.length + 1 ∧ StandsAt text p.column (p.text ++ ',' :: q.text) := by
  induction texts generalizing column k with
  | nil => cases hp
  | cons s rest ih =>
    cases rest with
    | nil =>
      rw [placed, placed, List.getElem?_cons_succ] at hq
      cases hq
    | cons t rest =>
      rw [List.intercalate_cons_cons] at h
      rw [placed] at hp hq
      rw [List.getElem?_cons_succ] at hq
      cases k with
      | zero =>
        obtain rfl := Option.some.inj hp
        obtain rfl := Option.some.inj hq
        refine ⟨rfl, h.beginning ?_⟩
        rw [List.append_assoc]
        exact (List.prefix_append_right_inj s).2 ((List.prefix_cons_inj ',').2 (prefix_intercalate_cons t rest))
      | succ k =>
        have hrest := h.drop
        rw [List.length_append, List.length_singleton, ← Nat.add_assoc] at hrest
        rw [List.getElem?_cons_succ] at hp
        exact ih hrest hp hq

/-- Between what is left of two such pieces there are only white space and the comma. -/
theorem exists_between {p q : Piece} (hcolumn : q.column = p.column + p.text.length + 1)
    (h : StandsAt text p.column (p.text ++ ',' :: q.text)) : ∃ trail lead,
      (∀ c ∈ trail, Text.isBlank c = true) ∧ (∀ c ∈ lead, Text.isBlank c = true) ∧
      q.trimmed.column = p.trimmed.column + p.trimmed.text.length + (trail ++ ',' :: lead).length ∧
      StandsAt text (p.trimmed.column + p.trimmed.text.length) (trail ++ ',' :: lead) := by
  obtain ⟨trail, hp, -, htrail⟩ := Text.exists_append_trim p.text
  obtain ⟨rest, hq, hlead, -⟩ := Text.exists_append_trim q.text
  have hparts : p.text ++ ',' :: q.text = p.text.takeWhile Text.isBlank ++ (p.trimmed.text ++
      ((trail ++ ',' :: q.text.takeWhile Text.isBlank) ++ (q.trimmed.text ++ rest))) := by
    have hfront := congrArg (fun u => u ++ ',' :: q.text) hp
    have hback := congrArg (fun u => p.text.takeWhile Text.isBlank ++ (p.trimmed.text ++ (trail ++ ',' :: u))) hq
    simp only [List.append_assoc, List.cons_append] at hfront hback ⊢
    exact hfront.trans hback
  rw [hparts] at h
  refine ⟨trail, q.text.takeWhile Text.isBlank, htrail, hlead, ?_, ?_⟩
  · have hlength := congrArg List.length hp
    have hback : q.trimmed.column = q.column + (q.text.takeWhile Text.isBlank).length := rfl
    have hfront : p.trimmed.column = p.column + (p.text.takeWhile Text.isBlank).length := rfl
    have hink : p.trimmed.text = Text.trim p.text := rfl
    rw [List.length_append, List.length_append] at hlength
    rw [hback, hcolumn, hfront, hink, List.length_append, List.length_cons]
    omega
  · exact h.drop.drop.beginning (List.prefix_append _ _)

/-! ### Operands -/

theorem splitOperands_eq_ok {pieces : List Piece} (hs : Text.trim s ≠ []) : splitOperands column s = .ok pieces ↔
    Balanced s ∧ (placed column (topLevelPieces 0 s)).mapM Piece.checked = .ok pieces := by
  rw [splitOperands_of_ink hs, balanced_iff column]

theorem exists_splitOperands_eq_ok (column : Nat) (hs : Text.trim s ≠ []) :
    (∃ pieces, splitOperands column s = .ok pieces) ↔
      Balanced s ∧ ∀ p ∈ topLevelPieces 0 s, Text.trim p ≠ [] := by
  constructor
  · rintro ⟨pieces, h⟩
    obtain ⟨hbalanced, hm⟩ := (splitOperands_eq_ok hs).1 h
    refine ⟨hbalanced, ?_⟩
    intro t ht
    have hplaced : (placed column (topLevelPieces 0 s)).map Piece.text = topLevelPieces 0 s := map_text_placed column
    rw [← hplaced] at ht
    obtain ⟨p, hp, rfl⟩ := List.mem_map.1 ht
    have hmem : p.checked ∈ (placed column (topLevelPieces 0 s)).map Piece.checked := List.mem_map_of_mem hp
    rw [mapM_eq_ok.1 hm] at hmem
    obtain ⟨q, -, hq⟩ := List.mem_map.1 hmem
    exact (checked_eq_ok.1 hq.symm).2
  · rintro ⟨hbalanced, hink⟩
    refine ⟨(placed column (topLevelPieces 0 s)).map Piece.trimmed, (splitOperands_eq_ok hs).2 ⟨hbalanced, ?_⟩⟩
    rw [mapM_eq_ok, List.map_map]
    refine List.map_congr_left fun p hp => ?_
    exact checked_eq_ok.2 ⟨rfl, hink p.text (text_mem_of_placed hp)⟩

theorem not_balanced_iff : ¬ Balanced s ↔
    (∃ p, p <+: s ∧ p.count '[' < p.count ']') ∨ s.count '[' ≠ s.count ']' := by
  constructor
  · intro h
    by_cases hcount : s.count '[' = s.count ']'
    · left
      have hcloses : ¬ ∀ p, p <+: s → p.count ']' ≤ p.count '[' := fun hcloses => h ⟨hcloses, hcount⟩
      obtain ⟨p, hp⟩ := Classical.not_forall.1 hcloses
      obtain ⟨hbegins, hlt⟩ := Classical.not_imp.1 hp
      exact ⟨p, hbegins, Nat.lt_of_not_le hlt⟩
    · exact .inr hcount
  · rintro (⟨p, hp, hlt⟩ | hcount) h
    · have hle := h.closes p hp
      omega
    · exact hcount h.count_eq

/-- The columns in a line that has a text behind `column` other characters, and those in the text alone. -/
private theorem standsAt_replicate_append (hk : column ≤ k) (h : StandsAt (List.replicate column ' ' ++ s) k t) :
    StandsAt s (k - column) t := by
  obtain ⟨k, rfl⟩ := Nat.exists_eq_add_of_le hk
  rw [Nat.add_sub_cancel_left]
  have hlength : (List.replicate column ' ').length = column := List.length_replicate
  have hstands : StandsAt (List.replicate column ' ' ++ s) ((List.replicate column ' ').length + k) t := by
    rwa [hlength]
  exact standsAt_append_left.1 hstands

theorem isSplit_of_splitOperands {pieces : List Piece} (hs : Text.trim s ≠ [])
    (h : splitOperands column s = .ok pieces) : IsSplit column s pieces := by
  obtain ⟨hbalanced, hm⟩ := (splitOperands_eq_ok hs).1 h
  have htexts : (placed column (topLevelPieces 0 s)).map Piece.text = topLevelPieces 0 s := map_text_placed column
  -- the columns are read off a line that has the text behind `column` other characters
  have hline : StandsAt (List.replicate column ' ' ++ s) column ([','].intercalate (topLevelPieces 0 s)) :=
    standsAt_iff.2 ⟨[], by rw [List.append_nil, intercalate_topLevelPieces, List.drop_left' List.length_replicate]⟩
  have hpiece : ∀ q ∈ pieces, ∃ p ∈ placed column (topLevelPieces 0 s), p.trimmed = q ∧ Text.trim p.text ≠ [] := by
    intro q hq
    obtain ⟨p, hp, hchecked⟩ := exists_mem_of_mapM_eq_ok hm hq
    exact ⟨p, hp, checked_eq_ok.1 hchecked⟩
  have hcolumn : ∀ p ∈ placed column (topLevelPieces 0 s), column ≤ p.trimmed.column := fun p hp =>
    Nat.le_trans (le_column_of_placed hp) (Nat.le_add_right _ _)
  constructor
  case length_eq =>
    rw [length_of_mapM hm, ← length_topLevelPieces hbalanced.closesWithin, ← congrArg List.length htexts,
      List.length_map]
  case ne_nil =>
    intro q hq
    obtain ⟨p, -, rfl, hink⟩ := hpiece q hq
    exact hink
  case trimmed =>
    intro q hq c hc
    obtain ⟨p, -, rfl, -⟩ := hpiece q hq
    rcases hc with hc | hc
    · exact Text.head?_trim hc
    · exact Text.getLast?_trim hc
  case stands =>
    intro q hq
    obtain ⟨p, hp, rfl, -⟩ := hpiece q hq
    have hstands := standsAt_trimmed (standsAt_placed hline hp)
    exact ⟨hcolumn p hp, standsAt_replicate_append (hcolumn p hp) hstands⟩
  case balanced =>
    intro q hq
    obtain ⟨p, hp, rfl, -⟩ := hpiece q hq
    exact (balanced_topLevelPieces hbalanced p.text (text_mem_of_placed hp)).balanced.trim
  case between =>
    intro k q r hq hr
    obtain ⟨p, hp, hcheckedp⟩ := getElem?_of_mapM hm hq
    obtain ⟨p', hp', hcheckedp'⟩ := getElem?_of_mapM hm hr
    obtain ⟨rfl, -⟩ := checked_eq_ok.1 hcheckedp
    obtain ⟨rfl, -⟩ := checked_eq_ok.1 hcheckedp'
    obtain ⟨hnext, hstands⟩ := standsAt_placed_succ hline hp hp'
    obtain ⟨trail, lead, htrail, hlead, hbehind, hbetween⟩ := exists_between hnext hstands
    have hle := hcolumn p (List.mem_of_getElem? hp)
    refine ⟨trail, lead, htrail, hlead, hbehind, ?_⟩
    rw [← Nat.sub_add_comm hle]
    exact standsAt_replicate_append (Nat.le_trans hle (Nat.le_add_right _ _)) hbetween

/-- A text is cut at its outer commas, unless it is blank, its brackets do not balance, or an operand is missing. -/
theorem splitOperands_exact (column : Nat) (s : List Char) :
    (∀ pieces, splitOperands column s = .ok pieces → Text.trim s ≠ [] → IsSplit column s pieces) ∧
    (Text.trim s = [] → splitOperands column s = .ok []) ∧
    ((∃ e, splitOperands column s = .error e) ↔ (∃ p, p <+: s ∧ p.count '[' < p.count ']') ∨
      s.count '[' ≠ s.count ']' ∨ ∃ front part back, IsBlankPart s front part back) := by
  refine ⟨fun pieces h hs => isSplit_of_splitOperands hs h, fun hs => if_pos hs, ?_⟩
  rw [← or_assoc, ← not_balanced_iff]
  constructor
  · rintro ⟨e, he⟩
    have hs : Text.trim s ≠ [] := by
      intro hs
      rw [splitOperands, if_pos hs] at he
      cases he
    rcases Classical.em (Balanced s) with hbalanced | hbalanced
    · right
      have hnone : ¬ ∀ p ∈ topLevelPieces 0 s, Text.trim p ≠ [] := by
        intro hink
        obtain ⟨pieces, hok⟩ := (exists_splitOperands_eq_ok column hs).2 ⟨hbalanced, hink⟩
        rw [he] at hok
        cases hok
      obtain ⟨part, hpart, hblank⟩ : ∃ p ∈ topLevelPieces 0 s, Text.trim p = [] := by simpa using hnone
      obtain ⟨front, back, h⟩ :=
        exists_isBlankPart hbalanced (Text.trim_ne_nil.1 hs) hpart (Text.trim_eq_nil.1 hblank)
      exact ⟨front, part, back, h⟩
    · exact .inl hbalanced
  · intro h
    have hs : Text.trim s ≠ [] := by
      intro hs
      have hblank := Text.trim_eq_nil.1 hs
      have hbalanced : Balanced s := (Passes.of_plain (isDelimiter_of_blank hblank)).balanced
      rcases h with hnot | ⟨front, part, back, h⟩
      · exact hnot hbalanced
      · have hmem := h.mem hbalanced
        rw [topLevelPieces_of_blank hblank, List.mem_singleton] at hmem
        have hlength := congrArg List.length h.eq
        rw [List.length_append, List.length_append, hmem] at hlength
        rcases h.comma with hfront | hback
        · exact hfront (List.eq_nil_of_length_eq_zero (by omega))
        · exact hback (List.eq_nil_of_length_eq_zero (by omega))
    cases hsplit : splitOperands column s with
    | error e => exact ⟨e, rfl⟩
    | ok pieces =>
      obtain ⟨hbalanced, hink⟩ := (exists_splitOperands_eq_ok column hs).1 ⟨pieces, hsplit⟩
      rcases h with hnot | ⟨front, part, back, h⟩
      · exact absurd hbalanced hnot
      · exact absurd (Text.trim_eq_nil.2 h.blank) (hink part (h.mem hbalanced))

/-- A comma in brackets does not cut, white space of any kind goes, and behind the last comma something must stand. -/
theorem splitOperands_exact_comma_in_brackets :
    IsSplit 3 " eax\u2003, [rbx, 4]".toList [⟨"eax".toList, 4⟩, ⟨"[rbx, 4]".toList, 10⟩] ∧
      ∃ e, splitOperands 3 "eax, ".toList = .error e := by
  have hsplit : splitOperands 3 " eax\u2003, [rbx, 4]".toList = .ok [⟨"eax".toList, 4⟩, ⟨"[rbx, 4]".toList, 10⟩] :=
    rfl
  have hblank : ∀ c ∈ [' '], Text.isBlank c = true := List.forall_mem_singleton.2 rfl
  have hpart : IsBlankPart "eax, ".toList "eax,".toList " ".toList [] :=
    ⟨rfl, hblank, .inr ⟨3, rfl, by decide⟩, .inl rfl, .inl (by decide)⟩
  constructor
  · exact (splitOperands_exact 3 _).1 _ hsplit (by decide)
  · exact (splitOperands_exact 3 _).2.2.2 (.inr (.inr ⟨_, _, _, hpart⟩))

end LongMode.Assembly

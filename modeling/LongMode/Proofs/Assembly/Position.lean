import LongMode.Assembly.Comment
import LongMode.Proofs.Assembly.Pieces

/-!
# Where the parts of a text stand

* `StandsAt`: a token occurs in a text at a column.  So do the beginnings of the token, and its other parts at columns
  of their own (`StandsAt.beginning`, `StandsAt.drop`).
* `StandsAt.of_withoutComment`: removing the comment moves nothing.
* `standsAt_placed` and `standsAt_trimmed`: each piece of a text stands at its column, and so does what is left of it
  without white space around it.
* `standsAt_strayClose` and `exists_open`: the column of an unbalanced bracket.
* `standsAt_of_splitOperands` and `splitOperands_eq_error`: both for the operands of a text.
-/

namespace LongMode.Assembly

/-- The characters from the column on begin with the token. -/
def StandsAt (text : List Char) (column : Nat) (token : List Char) : Prop :=
  (text.drop column).take token.length = token

instance (text : List Char) (column : Nat) (token : List Char) : Decidable (StandsAt text column token) :=
  inferInstanceAs (Decidable (_ = _))

variable {text s t lead : List Char} {column : Nat}

theorem standsAt_iff : StandsAt text column s ↔ s <+: text.drop column := by
  rw [List.prefix_iff_eq_take]
  exact eq_comm

namespace StandsAt

theorem beginning (h : StandsAt text column s) (ht : t <+: s) : StandsAt text column t :=
  standsAt_iff.2 (ht.trans (standsAt_iff.1 h))

theorem mem (h : StandsAt text column s) {c : Char} (hc : c ∈ s) : c ∈ text :=
  List.mem_of_mem_drop ((standsAt_iff.1 h).subset hc)

theorem drop (h : StandsAt text column (lead ++ s)) : StandsAt text (column + lead.length) s := by
  obtain ⟨rest, hrest⟩ := standsAt_iff.1 h
  rw [List.append_assoc] at hrest
  rw [standsAt_iff, ← List.drop_drop, ← hrest, List.drop_left]
  exact List.prefix_append s rest

end StandsAt

/-! ### Comments -/

/-- A single character that is left of the line after a comment is its line feed. -/
private theorem isBlank_of_mem_afterLine {c : Char} (h : (afterLine s).length ≤ 1) (hc : c ∈ afterLine s) :
    Text.isBlank c = true := by
  have hhead : (s.dropWhile fun c => c != '\n').head? = some c := by
    obtain ⟨d, rest, hline⟩ := List.exists_cons_of_ne_nil (List.ne_nil_of_mem hc)
    rw [hline] at h hc
    obtain rfl : rest = [] := List.eq_nil_of_length_eq_zero (by simpa using h)
    obtain rfl : c = d := List.mem_singleton.1 hc
    exact congrArg List.head? hline
  have hnot := List.head?_dropWhile_not (fun c => c != '\n') s
  rw [hhead] at hnot
  obtain rfl : c = '\n' := by simpa using hnot
  decide

private theorem exists_withoutComment (text : List Char) : ∃ kept cut tail,
    text = kept ++ (cut ++ tail) ∧ withoutComment text = kept ++ tail ∧ ∀ c ∈ tail, Text.isBlank c = true := by
  induction text with
  | nil => exact ⟨[], [], [], rfl, rfl, nofun⟩
  | cons c rest ih =>
    rw [withoutComment]
    by_cases hc : (startsComment c && (afterLine rest).length ≤ 1) = true
    · have hlength : (afterLine rest).length ≤ 1 := by simp_all
      rw [if_pos hc]
      refine ⟨[], c :: rest.takeWhile (fun c => c != '\n'), afterLine rest, ?_, rfl, ?_⟩
      · rw [List.nil_append, List.cons_append, afterLine, List.takeWhile_append_dropWhile]
      · intro d hd
        exact isBlank_of_mem_afterLine hlength hd
    · rw [if_neg hc]
      obtain ⟨kept, cut, tail, htext, hline, hblank⟩ := ih
      exact ⟨c :: kept, cut, tail, by rw [htext, List.cons_append], by rw [hline, List.cons_append], hblank⟩

/-- What does not end with white space is no part of it. -/
private theorem prefix_of_prefix_append (h : s <+: t ++ lead) (hblank : ∀ c ∈ lead, Text.isBlank c = true)
    (hs : ∀ c, s.getLast? = some c → Text.isBlank c = false) : s <+: t := by
  obtain ⟨rest, hrest⟩ := h
  rcases List.append_eq_append_iff.1 hrest with ⟨more, rfl, -⟩ | ⟨more, rfl, rfl⟩
  · exact List.prefix_append s more
  · rcases List.eq_nil_or_concat more with rfl | ⟨more, c, rfl⟩
    · simp
    · have hlast : (t ++ more.concat c).getLast? = some c := by simp
      have hc := hblank c (by simp)
      rw [hs c hlast] at hc
      cases hc

theorem StandsAt.of_withoutComment (h : StandsAt (withoutComment text) column s)
    (hs : ∀ c, s.getLast? = some c → Text.isBlank c = false) : StandsAt text column s := by
  obtain ⟨kept, cut, tail, htext, hline, hblank⟩ := exists_withoutComment text
  rw [standsAt_iff, hline, List.drop_append] at h
  have hkept : s <+: kept.drop column :=
    prefix_of_prefix_append h (fun c hc => hblank c (List.mem_of_mem_drop hc)) hs
  rw [standsAt_iff, htext, List.drop_append]
  exact hkept.trans (List.prefix_append _ _)

/-! ### Pieces -/

theorem standsAt_placed {texts : List (List Char)} (h : StandsAt text column ([','].intercalate texts)) {p : Piece}
    (hp : p ∈ placed column texts) : StandsAt text p.column p.text := by
  induction texts generalizing column with
  | nil => cases hp
  | cons s rest ih =>
    cases rest with
    | nil =>
      obtain rfl : p = ⟨s, column⟩ := List.mem_singleton.1 hp
      rwa [List.intercalate_singleton] at h
    | cons t rest =>
      rw [List.intercalate_cons_cons] at h
      rw [placed, List.mem_cons] at hp
      rcases hp with rfl | hp
      · exact h.beginning ((List.prefix_append s [',']).trans (List.prefix_append _ _))
      · have hrest := h.drop
        rw [List.length_append, List.length_singleton, ← Nat.add_assoc] at hrest
        exact ih hrest hp

theorem standsAt_trimmed {p : Piece} (h : StandsAt text p.column p.text) :
    StandsAt text p.trimmed.column p.trimmed.text := by
  rw [← List.takeWhile_append_dropWhile (p := Text.isBlank) (l := p.text)] at h
  exact h.drop.beginning (Text.trim_prefix p.text)

/-! ### Unbalanced brackets -/

theorem standsAt_strayClose {d k : Nat} (h : StandsAt text column s) (hs : strayClose? d column s = some k) :
    StandsAt text k [']'] := by
  induction s generalizing d column with
  | nil => cases hs
  | cons c rest ih =>
    rw [strayClose?] at hs
    split at hs
    · rename_i hc
      obtain rfl : column = k := Option.some.inj hs
      rw [hc.1] at h
      exact h.beginning ⟨rest, rfl⟩
    · have hstands : StandsAt text column ([c] ++ rest) := h
      exact ih hstands.drop hs

private theorem getLast?_prepend {pieces : List (List Char)} {last : List Char} (h : pieces.getLast? = some last)
    (c : Char) : (prepend c pieces).length = pieces.length ∧
      (prepend c pieces).getLast? = some (if pieces.length = 1 then c :: last else last) := by
  rcases pieces with _ | ⟨p, _ | ⟨q, rest⟩⟩
  · cases h
  · obtain rfl : p = last := Option.some.inj h
    exact ⟨rfl, rfl⟩
  · exact ⟨rfl, by simpa [prepend] using h⟩

/-- Where no bracket closes none and one stays open, the last piece holds an opening bracket before any other bracket
and comma, unless the whole text stands behind an open bracket. -/
private theorem exists_open_of_depth {d : Nat} (hclose : strayClose? d column s = none)
    (hopen : s.foldl depthAfter d ≠ 0) :
    ∃ last, (topLevelPieces d s).getLast? = some last ∧
      ((0 < d ∧ (topLevelPieces d s).length = 1) ∨
        ∃ lead, (∀ c ∈ lead, isDelimiter c = false) ∧ lead ++ ['['] <+: last) := by
  induction s generalizing d column with
  | nil =>
    have hd : 0 < d := Nat.pos_of_ne_zero hopen
    exact ⟨[], rfl, .inl ⟨hd, rfl⟩⟩
  | cons c rest ih =>
    rw [strayClose?] at hclose
    split at hclose
    · cases hclose
    · rename_i hstray
      obtain ⟨last, hlast, hcases⟩ := ih hclose hopen
      rw [topLevelPieces]
      by_cases hcut : c = ',' ∧ d = 0
      · obtain ⟨rfl, rfl⟩ := hcut
        have hdepth : depthAfter 0 ',' = 0 := by decide
        rw [hdepth] at hlast hcases
        rw [if_pos ⟨rfl, rfl⟩, List.getLast?_cons, hlast]
        exact ⟨last, rfl, .inr (hcases.resolve_left fun h => Nat.lt_irrefl 0 h.1)⟩
      · obtain ⟨hlength, hlast'⟩ := getLast?_prepend hlast c
        rw [if_neg hcut, hlength, hlast']
        by_cases hone : (topLevelPieces (depthAfter d c) rest).length = 1
        · rw [if_pos hone]
          refine ⟨_, rfl, ?_⟩
          rcases Nat.eq_zero_or_pos d with rfl | hd
          · right
            have hcomma : c ≠ ',' := fun h => hcut ⟨h, rfl⟩
            have hclosing : c ≠ ']' := fun h => hstray ⟨h, rfl⟩
            by_cases hbracket : c = '['
            · exact ⟨[], List.forall_mem_nil _, last, by rw [hbracket]; rfl⟩
            · rw [depthAfter, if_neg hbracket, if_neg hclosing] at hcases
              obtain ⟨lead, hlead, hprefix⟩ := hcases.resolve_left fun h => Nat.lt_irrefl 0 h.1
              refine ⟨c :: lead, ?_, (List.prefix_cons_inj c).2 hprefix⟩
              rw [List.forall_mem_cons]
              exact ⟨by simp [isDelimiter, hcomma, hclosing, hbracket], hlead⟩
          · exact .inl ⟨hd, hone⟩
        · rw [if_neg hone]
          exact ⟨last, rfl, .inr (hcases.resolve_left fun h => hone h.2)⟩

theorem exists_open (hclose : strayClose? 0 column s = none) (hopen : openBrackets s ≠ 0) :
    ∃ last lead, (topLevelPieces 0 s).getLast? = some last ∧ (∀ c ∈ lead, isDelimiter c = false) ∧
      lead ++ ['['] <+: last := by
  obtain ⟨last, hlast, hcases⟩ := exists_open_of_depth hclose hopen
  obtain ⟨lead, hlead, hprefix⟩ := hcases.resolve_left fun h => Nat.lt_irrefl 0 h.1
  exact ⟨last, lead, hlast, hlead, hprefix⟩

/-! ### Operands -/

/-- The operands stand where they are said to, and end with no white space. -/
theorem standsAt_of_splitOperands {pieces : List Piece} (h : StandsAt text column s)
    (hs : splitOperands column s = .ok pieces) {p : Piece} (hp : p ∈ pieces) :
    StandsAt text p.column p.text ∧ ∀ c, p.text.getLast? = some c → Text.isBlank c = false := by
  by_cases hink : Text.trim s = []
  · rw [splitOperands, if_pos hink] at hs
    cases hs
    cases hp
  · obtain ⟨-, hm⟩ := (splitOperands_of_ink hink).1 hs
    obtain ⟨q, hq, hchecked⟩ := exists_mem_of_mapM_eq_ok hm hp
    obtain ⟨rfl, -⟩ := checked_eq_ok.1 hchecked
    rw [← intercalate_topLevelPieces 0 s] at h
    exact ⟨standsAt_trimmed (standsAt_placed h hq), fun c hc => Text.getLast?_trim hc⟩

/-- Brackets that do not balance, unless there is an operand missing. -/
theorem splitOperands_eq_error {e : ParseError} (h : StandsAt text column s) (hs : splitOperands column s = .error e)
    (he : e.token ≠ []) :
    (e.cause = .unbalancedClose ∧ e.token = [']'] ∧ StandsAt text e.column e.token) ∨
      e.cause = .unbalancedOpen ∧ e.token = ['['] ∧
        ∃ lead, (∀ c ∈ lead, isDelimiter c = false) ∧ StandsAt text e.column (lead ++ e.token) := by
  unfold splitOperands at hs
  split at hs
  · cases hs
  · split at hs
    · rename_i k hclose
      cases hs
      exact .inl ⟨rfl, rfl, standsAt_strayClose h hclose⟩
    · rename_i hclose
      dsimp only at hs
      split at hs
      · obtain ⟨p, -, hchecked⟩ := exists_mem_of_mapM_eq_error hs
        unfold Piece.checked at hchecked
        split at hchecked
        · cases hchecked
          exact absurd rfl he
        · cases hchecked
      · rename_i hopen
        cases hs
        obtain ⟨last, lead, hlast, hlead, hprefix⟩ := exists_open hclose hopen
        rw [← intercalate_topLevelPieces 0 s] at h
        obtain ⟨p, hp, rfl⟩ : ∃ p, (placed column (topLevelPieces 0 s)).getLast? = some p ∧ p.text = last := by
          have htexts : (placed column (topLevelPieces 0 s)).map Piece.text = topLevelPieces 0 s :=
            map_text_placed column
          rw [← htexts, List.getLast?_map] at hlast
          exact Option.map_eq_some_iff.1 hlast
        have hplaced := (standsAt_placed h (List.mem_of_getLast? hp)).beginning hprefix
        refine .inr ⟨rfl, rfl, lead, hlead, ?_⟩
        rw [hp]
        exact hplaced

end LongMode.Assembly

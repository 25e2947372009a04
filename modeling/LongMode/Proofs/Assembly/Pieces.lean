import LongMode.Assembly.Piece
import LongMode.Proofs.Outcome
import LongMode.Proofs.Text.Blank

/-!
# Cutting a text at its commas

Cutting is the inverse of putting commas between texts, as long as no text holds a comma outside brackets.

* `Passes d e s`: reading `s` with `d` brackets open leaves `e` open, and meets neither a comma outside brackets nor a
  bracket that closes none.  It holds of the parts of a text if it holds of the whole (`Passes.append`).
* `intercalate_topLevelPieces`: a text is the sequence of its pieces.
* `topLevelPieces_intercalate`: texts that pass are the pieces of their sequence.
* `splitOperands_of_ink`: when a text has operands, and which.
* `splitOperands_intercalate`: trimmed texts that pass are the operands of their sequence.
-/

namespace LongMode.Assembly

/-- A comma or a bracket. -/
def isDelimiter (c : Char) : Bool := c == ',' || c == '[' || c == ']'

theorem isDelimiter_of_blank {s : List Char} (hs : ∀ c ∈ s, Text.isBlank c = true) :
    ∀ c ∈ s, isDelimiter c = false := by
  intro c hc
  have hb := hs c hc
  cases hd : isDelimiter c with
  | false => rfl
  | true =>
    have hc : (c = ',' ∨ c = '[') ∨ c = ']' := by simpa [isDelimiter] using hd
    rcases hc with (rfl | rfl) | rfl <;> cases hb

/-- The text is read over in one piece, from one number of open brackets to another. -/
structure Passes (d e : Nat) (s : List Char) : Prop where
  pieces : ∀ r, topLevelPieces d (s ++ r) = s.foldr prepend (topLevelPieces e r)
  closes : ∀ column r, strayClose? d column (s ++ r) = strayClose? e (column + s.length) r
  depth : s.foldl depthAfter d = e

namespace Passes

variable {d e f : Nat} {s t : List Char} {c : Char}

theorem nil : Passes d d [] := ⟨fun _ => rfl, fun _ _ => rfl, rfl⟩

theorem append (hs : Passes d e s) (ht : Passes e f t) : Passes d f (s ++ t) where
  pieces r := by rw [List.append_assoc, hs.pieces, ht.pieces, List.foldr_append]
  closes column r := by rw [List.append_assoc, hs.closes, ht.closes, List.length_append, Nat.add_assoc]
  depth := by rw [List.foldl_append, hs.depth, ht.depth]

/-- One character that is neither a comma outside brackets nor a bracket that closes none. -/
theorem singleton (hc : c = ',' → d ≠ 0) (hb : c = ']' → d ≠ 0) : Passes d (depthAfter d c) [c] where
  pieces r := by
    have h : ¬(c = ',' ∧ d = 0) := fun h => hc h.1 h.2
    simp [topLevelPieces, h]
  closes column r := by
    have h : ¬(c = ']' ∧ d = 0) := fun h => hb h.1 h.2
    simp [strayClose?, h]
  depth := rfl

theorem of_plain (h : ∀ c ∈ s, isDelimiter c = false) : Passes d d s := by
  induction s with
  | nil => exact nil
  | cons c s ih =>
    have hc : (c ≠ ',' ∧ c ≠ '[') ∧ c ≠ ']' := by simpa [isDelimiter] using h c List.mem_cons_self
    have hone : Passes d (depthAfter d c) [c] := singleton (fun h => absurd h hc.1.1) (fun h => absurd h hc.2)
    rw [depthAfter, if_neg hc.1.2, if_neg hc.2] at hone
    exact hone.append (ih fun c' hc' => h c' (List.mem_cons_of_mem _ hc'))

/-- A pair of brackets around a text that passes inside them. -/
theorem bracketed (h : Passes (d + 1) (d + 1) s) : Passes d d ('[' :: (s ++ [']'])) := by
  have hopen : Passes d (d + 1) ['['] := singleton (c := '[') (by simp) (by simp)
  have hclose : Passes (d + 1) d [']'] := singleton (c := ']') (by simp) (by simp)
  exact hopen.append (h.append hclose)

end Passes

/-! ### Commas between texts -/

theorem foldr_prepend (s p : List Char) (rest : List (List Char)) :
    s.foldr prepend (p :: rest) = (s ++ p) :: rest := by
  induction s with
  | nil => rfl
  | cons c s ih => rw [List.foldr_cons, ih, prepend, List.cons_append]

private theorem intercalate_prepend (c : Char) (pieces : List (List Char)) :
    [','].intercalate (prepend c pieces) = c :: [','].intercalate pieces := by
  rcases pieces with _ | ⟨p, _ | ⟨q, rest⟩⟩
  · rfl
  · rw [prepend, List.intercalate_singleton, List.intercalate_singleton]
  · rw [prepend, List.intercalate_cons_cons, List.intercalate_cons_cons]
    rfl

theorem topLevelPieces_ne_nil (d : Nat) (s : List Char) : topLevelPieces d s ≠ [] := by
  cases s with
  | nil => exact List.cons_ne_nil _ _
  | cons c rest =>
    rw [topLevelPieces]
    split
    · exact List.cons_ne_nil _ _
    · cases topLevelPieces (depthAfter d c) rest <;> exact List.cons_ne_nil _ _

/-- Nothing but the commas is lost. -/
theorem intercalate_topLevelPieces (d : Nat) (s : List Char) : [','].intercalate (topLevelPieces d s) = s := by
  induction s generalizing d with
  | nil => rfl
  | cons c rest ih =>
    rw [topLevelPieces]
    split
    · rename_i hc
      obtain ⟨p, others, hp⟩ := List.exists_cons_of_ne_nil (topLevelPieces_ne_nil 0 rest)
      have hrest := ih 0
      rw [hp] at hrest ⊢
      rw [List.intercalate_cons_cons, hrest, hc.1]
      rfl
    · rw [intercalate_prepend, ih]

variable {texts : List (List Char)}

theorem topLevelPieces_intercalate (hne : texts ≠ []) (h : ∀ s ∈ texts, Passes 0 0 s) :
    topLevelPieces 0 ([','].intercalate texts) = texts := by
  induction texts with
  | nil => exact absurd rfl hne
  | cons s rest ih =>
    have hs := h s List.mem_cons_self
    cases rest with
    | nil =>
      have hp := hs.pieces []
      rw [List.append_nil] at hp
      rw [List.intercalate_singleton, hp, topLevelPieces, foldr_prepend, List.append_nil]
    | cons t rest =>
      have hr := ih (by simp) fun s hs => h s (List.mem_cons_of_mem _ hs)
      -- no bracket is open behind `s`, so the comma there cuts
      have hcut : topLevelPieces 0 (',' :: [','].intercalate (t :: rest)) = [] :: t :: rest := by
        simp [topLevelPieces, hr]
      rw [List.intercalate_cons_cons, List.append_assoc, List.singleton_append, hs.pieces, hcut, foldr_prepend,
        List.append_nil]

theorem brackets_intercalate (h : ∀ s ∈ texts, Passes 0 0 s) (column : Nat) :
    strayClose? 0 column ([','].intercalate texts) = none ∧ openBrackets ([','].intercalate texts) = 0 := by
  induction texts generalizing column with
  | nil => exact ⟨rfl, rfl⟩
  | cons s rest ih =>
    have hs := h s List.mem_cons_self
    cases rest with
    | nil =>
      have hc := hs.closes column []
      rw [List.append_nil] at hc
      rw [List.intercalate_singleton]
      exact ⟨hc, hs.depth⟩
    | cons t rest =>
      have hr := ih (fun s hs => h s (List.mem_cons_of_mem _ hs)) (column + s.length + 1)
      rw [List.intercalate_cons_cons, List.append_assoc, List.singleton_append]
      refine ⟨(hs.closes _ _).trans hr.1, ?_⟩
      rw [openBrackets, List.foldl_append, hs.depth]
      exact hr.2

private theorem mem_intercalate {s : List Char} {c : Char} (hs : s ∈ texts) (hc : c ∈ s) :
    c ∈ [','].intercalate texts := by
  induction texts with
  | nil => cases hs
  | cons t rest ih =>
    cases rest with
    | nil =>
      obtain rfl := List.mem_singleton.1 hs
      rwa [List.intercalate_singleton]
    | cons u rest =>
      rw [List.intercalate_cons_cons, List.mem_append, List.mem_append]
      rcases List.mem_cons.1 hs with rfl | hs
      · exact .inl (.inl hc)
      · exact .inr (ih hs)

theorem map_text_placed (column : Nat) : (placed column texts).map Piece.text = texts := by
  induction texts generalizing column with
  | nil => rfl
  | cons s rest ih => rw [placed, List.map_cons, ih]

theorem text_mem_of_placed {column : Nat} {p : Piece} (hp : p ∈ placed column texts) : p.text ∈ texts := by
  have hmem : p.text ∈ (placed column texts).map Piece.text := List.mem_map_of_mem hp
  rwa [map_text_placed] at hmem

/-! ### The operands that are read -/

theorem checked_eq_ok {p q : Piece} : p.checked = .ok q ↔ p.trimmed = q ∧ Text.trim p.text ≠ [] := by
  unfold Piece.checked
  split
  · rename_i hempty
    exact ⟨nofun, fun h => absurd hempty h.2⟩
  · rename_i hink
    exact ⟨fun h => ⟨Except.ok.inj h, hink⟩, fun h => congrArg _ h.1⟩

/-- Where the brackets match, the operands of a text that is not blank are its pieces, if none of these is blank. -/
theorem splitOperands_of_ink {s : List Char} {column : Nat} {pieces : List Piece} (hs : Text.trim s ≠ []) :
    splitOperands column s = .ok pieces ↔ (strayClose? 0 column s = none ∧ openBrackets s = 0) ∧
      (placed column (topLevelPieces 0 s)).mapM Piece.checked = .ok pieces := by
  rw [splitOperands, if_neg hs]
  cases hclose : strayClose? 0 column s with
  | some k => simp
  | none =>
    by_cases hopen : openBrackets s = 0
    · simp [hopen]
    · simp [hopen]

/-- A space in front of a text that passes and is trimmed. -/
private theorem spaced {s : List Char} (h : Passes 0 0 s) : Passes 0 0 (' ' :: s) :=
  Passes.append (s := [' ']) (Passes.singleton (by decide) (by decide)) h

/-- Trimmed texts, each after a space and with commas between them, are the operands that are read. -/
theorem splitOperands_intercalate (column : Nat) (hne : texts ≠ []) (h : ∀ s ∈ texts, Passes 0 0 s)
    (htrim : ∀ s ∈ texts, s ≠ [] ∧ Text.trim s = s) :
    ∃ pieces, splitOperands column ([','].intercalate (texts.map (' ' :: ·))) = .ok pieces ∧
      pieces.map Piece.text = texts := by
  have hspaced : ∀ s ∈ texts.map (' ' :: ·), Passes 0 0 s := by
    intro s hs
    obtain ⟨t, ht, rfl⟩ := List.mem_map.1 hs
    exact spaced (h t ht)
  have hcut := topLevelPieces_intercalate (by simpa using hne) hspaced
  have hbrackets := brackets_intercalate hspaced column
  have hnames : (placed column (texts.map (' ' :: ·))).map Piece.text = texts.map (' ' :: ·) := map_text_placed column
  -- where the pieces stand plays no part from here on
  generalize hp : placed column (texts.map (' ' :: ·)) = pieces at hnames
  have htrimmed : (pieces.map Piece.trimmed).map Piece.text = texts := by
    have ht : (pieces.map Piece.text).map Text.trim = texts := by
      rw [hnames, List.map_map, List.map_congr_left (g := id), List.map_id]
      exact fun s hs => (Text.trim_cons_of_blank rfl).trans (htrim s hs).2
    rw [← ht, List.map_map, List.map_map]
    rfl
  refine ⟨pieces.map Piece.trimmed, ?_, htrimmed⟩
  have hchecked : pieces.mapM Piece.checked = .ok (pieces.map Piece.trimmed) := by
    rw [mapM_eq_ok, List.map_map]
    refine List.map_congr_left fun p hp => ?_
    have hmem : p.trimmed.text ∈ (pieces.map Piece.trimmed).map Piece.text :=
      List.mem_map_of_mem (List.mem_map_of_mem hp)
    rw [htrimmed] at hmem
    exact checked_eq_ok.2 ⟨rfl, (htrim _ hmem).1⟩
  have hblank : Text.trim ([','].intercalate (texts.map (' ' :: ·))) ≠ [] := by
    obtain ⟨s, hs⟩ := List.exists_mem_of_ne_nil texts hne
    have hink : Text.trim s ≠ [] := by
      rw [(htrim s hs).2]
      exact (htrim s hs).1
    obtain ⟨c, hc, hb⟩ := Text.trim_ne_nil.1 hink
    exact Text.trim_ne_nil.2 ⟨c, mem_intercalate (List.mem_map_of_mem hs) (List.mem_cons_of_mem _ hc), hb⟩
  rw [splitOperands_of_ink hblank, hcut, hp]
  exact ⟨hbrackets, hchecked⟩

end LongMode.Assembly

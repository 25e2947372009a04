import LongMode.Proofs.Assembly.Columns
import LongMode.Proofs.Assembly.Comment
import LongMode.Proofs.Assembly.Pieces

/-!
# White space and comments around an instruction

* `sameReading_splitOperands`: white space at the end of a text does not change its operands.
* `sameReading_parse`: white space around a line changes no more than the columns of errors.
* `sameReading_bareLine`: so a line is read like the line that a program makes of it, without comment and white space.
-/

namespace LongMode.Assembly

variable {s t : List Char}

/-! ### White space after the operands -/

private theorem isSome_strayClose?_append (ht : ∀ c ∈ t, Text.isBlank c = true) (s : List Char) (d c c' : Nat) :
    (strayClose? d c (s ++ t)).isSome = (strayClose? d c' s).isSome := by
  induction s generalizing d c c' with
  | nil =>
    have hplain : Passes d d t := Passes.of_plain (isDelimiter_of_blank ht)
    have hcloses := hplain.closes c []
    rw [List.append_nil] at hcloses
    rw [List.nil_append, hcloses]
    rfl
  | cons x s ih =>
    simp only [List.cons_append, strayClose?]
    split
    · rfl
    · exact ih _ _ _

/-- White space at the end belongs to the last piece. -/
private theorem topLevelPieces_append (ht : ∀ c ∈ t, Text.isBlank c = true) (s : List Char) (d : Nat) :
    ∃ front last, topLevelPieces d s = front ++ [last] ∧ topLevelPieces d (s ++ t) = front ++ [last ++ t] := by
  induction s generalizing d with
  | nil =>
    have hplain : Passes d d t := Passes.of_plain (isDelimiter_of_blank ht)
    have hpieces := hplain.pieces []
    rw [List.append_nil, topLevelPieces, foldr_prepend, List.append_nil] at hpieces
    exact ⟨[], [], rfl, hpieces⟩
  | cons x s ih =>
    rw [List.cons_append, topLevelPieces, topLevelPieces]
    split
    · obtain ⟨front, last, hs, hst⟩ := ih 0
      exact ⟨[] :: front, last, by rw [hs]; rfl, by rw [hst]; rfl⟩
    · obtain ⟨front, last, hs, hst⟩ := ih (depthAfter d x)
      rw [hs, hst]
      cases front with
      | nil => exact ⟨[], x :: last, rfl, rfl⟩
      | cons p front => exact ⟨(x :: p) :: front, last, rfl, rfl⟩

private theorem map_trim_topLevelPieces (ht : ∀ c ∈ t, Text.isBlank c = true) (s : List Char) :
    (topLevelPieces 0 (s ++ t)).map Text.trim = (topLevelPieces 0 s).map Text.trim := by
  obtain ⟨front, last, hs, hst⟩ := topLevelPieces_append ht s 0
  rw [hs, hst, List.map_append, List.map_append, List.map_singleton, List.map_singleton, Text.trim_append_right _ ht]

private theorem openBrackets_append (ht : ∀ c ∈ t, Text.isBlank c = true) (s : List Char) :
    openBrackets (s ++ t) = openBrackets s := by
  have hplain : Passes (openBrackets s) (openBrackets s) t := Passes.of_plain (isDelimiter_of_blank ht)
  rw [openBrackets, List.foldl_append]
  exact hplain.depth

private theorem sameReading_checked {ps qs : List Piece}
    (h : ps.map (Text.trim ∘ Piece.text) = qs.map (Text.trim ∘ Piece.text)) :
    SameReading (List.map Piece.text) (ps.mapM Piece.checked) (qs.mapM Piece.checked) := by
  refine sameReading_mapM _ h fun p q hpq => ?_
  have htext : p.trimmed.text = q.trimmed.text := hpq
  unfold Piece.checked
  rw [htext]
  split
  · exact .error rfl
  · exact .ok htext

theorem sameReading_splitOperands (ht : ∀ c ∈ t, Text.isBlank c = true) (s : List Char) (c c' : Nat) :
    SameReading (List.map Piece.text) (splitOperands c (s ++ t)) (splitOperands c' s) := by
  unfold splitOperands
  rw [Text.trim_append_right s ht, openBrackets_append ht]
  split
  · exact .ok rfl
  · have hstray := isSome_strayClose?_append ht s 0 c c'
    cases hs : strayClose? 0 c (s ++ t) with
    | some k =>
      obtain ⟨k', hk'⟩ := Option.isSome_iff_exists.1 (hstray.symm.trans (by rw [hs]; rfl))
      rw [hk']
      exact .error rfl
    | none =>
      have hnone : strayClose? 0 c' s = none := Option.not_isSome_iff_eq_none.1 (by rw [← hstray, hs]; decide)
      rw [hnone]
      dsimp only
      split
      · refine sameReading_checked ?_
        rw [← List.map_map, ← List.map_map, map_text_placed, map_text_placed, map_trim_topLevelPieces ht]
      · exact .error rfl

/-! ### White space around a line -/

private theorem drop_add_trimLeft (line : List Char) (n : Nat) :
    line.drop ((line.takeWhile Text.isBlank).length + n) = (Text.trimLeft line).drop n := by
  have hdrop : (line.takeWhile Text.isBlank ++ line.dropWhile Text.isBlank).drop
      (line.takeWhile Text.isBlank).length = Text.trimLeft line := List.drop_left
  rw [List.takeWhile_append_dropWhile] at hdrop
  rw [← List.drop_drop, hdrop]

private theorem sameReading_readMnemonic (word : List Char) (c c' : Nat) :
    SameReading id (readMnemonic word c) (readMnemonic word c') := by
  unfold readMnemonic
  cases Mnemonic.ofWord? word with
  | some m => exact .ok rfl
  | none =>
    dsimp only
    split <;> exact .error rfl

/-- The texts hold the same line, one of them with white space around it. -/
theorem sameReading_parse {text text' lead trail : List Char} (h : withoutComment text = lead ++ (s ++ trail))
    (h' : withoutComment text' = s) (hlead : ∀ c ∈ lead, Text.isBlank c = true)
    (htrail : ∀ c ∈ trail, Text.isBlank c = true) : SameReading id (parse text) (parse text') := by
  unfold parse
  dsimp only
  rw [h, h', drop_add_trimLeft, drop_add_trimLeft, Text.trimLeft_append_left _ hlead]
  by_cases hs : Text.trimLeft s = []
  · have hall : ∀ c ∈ s ++ trail, Text.isBlank c = true := fun c hc =>
      (List.mem_append.1 hc).elim (Text.trimLeft_eq_nil.1 hs c) (htrail c)
    rw [hs, Text.trimLeft_eq_nil.2 hall]
    exact .error rfl
  · rw [Text.trimLeft_append_right hs, Text.firstWord_append_blank _ htrail]
    have hword : (Text.firstWord (Text.trimLeft s)).length ≤ (Text.trimLeft s).length :=
      (List.takeWhile_prefix _).length_le
    rw [List.drop_append_of_le_length hword]
    split
    · exact .error rfl
    · refine (sameReading_readMnemonic _ _ _).bind fun m m' hm => ?_
      obtain rfl : m = m' := hm
      refine (sameReading_splitOperands htrail _ _ _).bind fun ps qs hps => ?_
      refine (sameReading_operands hps).bind fun os os' hos => ?_
      have hlength : os.length = os'.length := by simpa using congrArg List.length hos
      rw [hlength]
      split
      · exact .error rfl
      · exact (sameReading_resolveWidths m hos).bind fun xs ys hxs => .ok (congrArg (Instruction.mk m) hxs)

/-- The line of a program is read like the line it was cut from. -/
theorem sameReading_bareLine {line : List Char} (h : '\n' ∉ line) :
    SameReading id (parse line) (parse (bareLine line)) := by
  obtain ⟨trail, hline, hlead, htrail⟩ := Text.exists_append_trim (withoutComment line)
  refine sameReading_parse hline (withoutComment_eq_self fun c hc => ?_) hlead htrail
  have hmem : c ∈ withoutComment line := by
    rw [hline]
    exact List.mem_append_right _ (List.mem_append_left _ hc)
  exact startsComment_of_mem h hmem

end LongMode.Assembly

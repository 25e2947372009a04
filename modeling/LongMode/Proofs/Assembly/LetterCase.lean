import LongMode.Assembly.Line
import LongMode.Proofs.Outcome
import LongMode.Proofs.Register.Name
import LongMode.Proofs.Text.Blank

/-!
# Letter case carries no meaning

Every step from a text to an instruction does with small letters what it does with the text: it finds the same parts,
in small letters where they are texts, and it fails with an error of the same kind.

* `withoutComment_lower` and `splitOperands_lower`: the line and its operands, at the same columns.
* `readOperand_lower`: an operand.
* `parse_lower`: the instruction.
-/

namespace LongMode

/-- The kind of an error without a column. -/
def Complaint.kind (c : Complaint) : ParseErrorKind := c.cause.kind

def ParseError.kind (e : ParseError) : ParseErrorKind := e.cause.kind

theorem Mnemonic.ofWord?_lower (s : List Char) : ofWord? (Text.lower s) = ofWord? s := by
  simp only [ofWord?, Text.spells_lower]

namespace Assembly

open Text (lower)

variable {d column : Nat} {s : List Char}

/-! ### Lines and pieces -/

theorem afterLine_lower (s : List Char) : afterLine (lower s) = lower (afterLine s) :=
  Text.dropWhile_lower (fun c => Text.apply_toLower (f := fun c => c != '\n') (by decide) c) s

theorem withoutComment_lower (s : List Char) : withoutComment (lower s) = lower (withoutComment s) := by
  induction s with
  | nil => rfl
  | cons c s ih =>
    have hmark : startsComment c.toLower = startsComment c := Text.apply_toLower (by decide) c
    show withoutComment (c.toLower :: lower s) = _
    rw [withoutComment, withoutComment, hmark, afterLine_lower, Text.length_lower, ih]
    split <;> rfl

theorem depthAfter_toLower (d : Nat) (c : Char) : depthAfter d c.toLower = depthAfter d c := by
  have hopen : c.toLower = '[' ↔ c = '[' := Text.toLower_eq_iff (by decide)
  have hclose : c.toLower = ']' ↔ c = ']' := Text.toLower_eq_iff (by decide)
  simp only [depthAfter, hopen, hclose]

theorem openBrackets_lower (s : List Char) : openBrackets (lower s) = openBrackets s := by
  rw [openBrackets, lower, List.foldl_map]
  simp only [depthAfter_toLower]
  rfl

theorem strayClose?_lower : strayClose? d column (lower s) = strayClose? d column s := by
  induction s generalizing d column with
  | nil => rfl
  | cons c s ih =>
    have hclose : c.toLower = ']' ↔ c = ']' := Text.toLower_eq_iff (by decide)
    show strayClose? d column (c.toLower :: lower s) = _
    rw [strayClose?, strayClose?, depthAfter_toLower, ih]
    simp only [hclose]

theorem topLevelPieces_lower : topLevelPieces d (lower s) = (topLevelPieces d s).map lower := by
  induction s generalizing d with
  | nil => rfl
  | cons c s ih =>
    have hcomma : c.toLower = ',' ↔ c = ',' := Text.toLower_eq_iff (by decide)
    show topLevelPieces d (c.toLower :: lower s) = _
    rw [topLevelPieces, topLevelPieces, depthAfter_toLower, ih, ih]
    simp only [hcomma]
    split
    · rfl
    · cases topLevelPieces (depthAfter d c) s <;> rfl

/-- A piece in small letters. -/
def Piece.lower (p : Piece) : Piece := ⟨Text.lower p.text, p.column⟩

theorem placed_lower (texts : List (List Char)) :
    placed column (texts.map lower) = (placed column texts).map Piece.lower := by
  induction texts generalizing column with
  | nil => rfl
  | cons s rest ih =>
    rw [List.map_cons, placed, placed, Text.length_lower, ih]
    rfl

theorem checked_lower (p : Piece) : p.lower.checked = p.checked.map Piece.lower := by
  have hlead : (Text.lower p.text).takeWhile Text.isBlank = Text.lower (p.text.takeWhile Text.isBlank) :=
    Text.takeWhile_lower Text.isBlank_toLower p.text
  have htrimmed : p.lower.trimmed = p.trimmed.lower := by
    rw [Piece.trimmed, Piece.lower, hlead, Text.length_lower, Text.trim_lower]
    rfl
  have hblank : p.trimmed.lower.text = [] ↔ p.trimmed.text = [] := Text.lower_eq_nil
  rw [Piece.checked, htrimmed, Piece.checked]
  simp only [hblank]
  split <;> rfl

private theorem mapM_checked_lower (ps : List Piece) :
    (ps.map Piece.lower).mapM Piece.checked = (ps.mapM Piece.checked).map (List.map Piece.lower) := by
  induction ps with
  | nil => rfl
  | cons p ps ih =>
    rw [List.map_cons, List.mapM_cons, List.mapM_cons, ih, checked_lower]
    cases p.checked with
    | error e => rfl
    | ok q => cases ps.mapM Piece.checked <;> rfl

/-- The errors of this step are about brackets and white space, so they are the same. -/
theorem splitOperands_lower (column : Nat) (s : List Char) :
    splitOperands column (lower s) = (splitOperands column s).map (List.map Piece.lower) := by
  rw [splitOperands, splitOperands, Text.trim_lower, strayClose?_lower, openBrackets_lower, topLevelPieces_lower,
    placed_lower]
  simp only [Text.lower_eq_nil]
  split
  · rfl
  · cases strayClose? 0 column s with
    | some k => rfl
    | none =>
      dsimp only
      split
      · exact mapM_checked_lower _
      · rw [List.getLast?_map, Option.map_map]
        rfl

/-! ### Addresses -/

/-- A term in small letters. -/
def SumTerm.lower (t : SumTerm) : SumTerm := ⟨t.negative, Text.lower t.body⟩

private theorem cutAtSigns_lower (s : List Char) :
    cutAtSigns (lower s) = (lower (cutAtSigns s).1, (cutAtSigns s).2.map SumTerm.lower) := by
  induction s with
  | nil => rfl
  | cons c s ih =>
    have hsign : isSign c.toLower = isSign c := Text.apply_toLower (by decide) c
    have hminus : (c.toLower == '-') = (c == '-') := Text.apply_toLower (f := fun c => c == '-') (by decide) c
    show cutAtSigns (c.toLower :: lower s) = _
    rw [cutAtSigns, cutAtSigns, ih, hsign, hminus]
    dsimp only
    split <;> rfl

private theorem sumTerms?_lower (s : List Char) :
    sumTerms? (lower s) = (sumTerms? s).map (List.map SumTerm.lower) := by
  rw [sumTerms?, sumTerms?, cutAtSigns_lower]
  dsimp only
  obtain ⟨terms, hterms⟩ : ∃ terms, (if (cutAtSigns s).1 = [] then (cutAtSigns s).2
      else ⟨false, (cutAtSigns s).1⟩ :: (cutAtSigns s).2) = terms := ⟨_, rfl⟩
  have hlower : (if lower (cutAtSigns s).1 = [] then (cutAtSigns s).2.map SumTerm.lower
      else ⟨false, lower (cutAtSigns s).1⟩ :: (cutAtSigns s).2.map SumTerm.lower) = terms.map SumTerm.lower := by
    rw [← hterms]
    simp only [Text.lower_eq_nil]
    split <;> rfl
  have hempty : (terms.map SumTerm.lower).any (fun t => t.body.isEmpty) = terms.any fun t => t.body.isEmpty := by
    rw [List.any_map]
    congr 1
    funext t
    cases h : t.body <;> simp [SumTerm.lower, h, Text.lower]
  rw [hterms, hlower, hempty]
  simp only [List.map_eq_nil_iff]
  split <;> rfl

private theorem addressRegister_lower (name : List Char) :
    (addressRegister (lower name)).mapError Complaint.kind = (addressRegister name).mapError Complaint.kind := by
  rw [addressRegister, addressRegister, Text.isIdentifier_lower, View.ofName?_lower, VectorRegister.ofName?_lower]
  split
  · split
    · rfl
    · rfl
    · split <;> rfl
  · rfl

private theorem simplePart_lower (t : SumTerm) :
    (simplePart t.lower).mapError Complaint.kind = (simplePart t).mapError Complaint.kind := by
  have hnumeral : Text.unsigned? t.lower.body = Text.unsigned? t.body := Text.unsigned?_lower t.body
  rw [simplePart, simplePart, hnumeral]
  cases Text.unsigned? t.body with
  | some n => rfl
  | none =>
    dsimp only
    cases hnegative : t.negative with
    | true =>
      have hnegative' : t.lower.negative = true := hnegative
      rw [hnegative']
      rfl
    | false =>
      have hnegative' : t.lower.negative = false := hnegative
      rw [hnegative', if_neg Bool.false_ne_true, if_neg Bool.false_ne_true, mapError_map, mapError_map]
      exact congrArg _ (addressRegister_lower t.body)

private theorem productPart_lower (t : SumTerm) :
    (productPart t.lower).mapError Complaint.kind = (productPart t).mapError Complaint.kind := by
  have hstar : ∀ c : Char, (c.toLower != '*') = (c != '*') := Text.apply_toLower (f := fun c => c != '*') (by decide)
  obtain ⟨negative, body⟩ := t
  obtain ⟨left, hleft⟩ : ∃ left, body.takeWhile (fun c => c != '*') = left := ⟨_, rfl⟩
  obtain ⟨right, hright⟩ : ∃ right, (body.dropWhile fun c => c != '*').drop 1 = right := ⟨_, rfl⟩
  have hleft' : (lower body).takeWhile (fun c => c != '*') = lower left := by rw [Text.takeWhile_lower hstar, hleft]
  have hright' : ((lower body).dropWhile fun c => c != '*').drop 1 = lower right := by
    rw [Text.dropWhile_lower hstar, ← hright]
    exact List.map_drop.symm
  -- the numeral may stand on either side
  obtain ⟨factor, register, hsides, hsides'⟩ : ∃ factor register,
      (if (Text.unsigned? left).isSome then (left, right) else (right, left)) = (factor, register) ∧
      (if (Text.unsigned? left).isSome then (lower left, lower right) else (lower right, lower left)) =
        (lower factor, lower register) := by
    split
    · exact ⟨left, right, rfl, rfl⟩
    · exact ⟨right, left, rfl, rfl⟩
  unfold productPart SumTerm.lower
  dsimp only
  rw [hleft, hright, hleft', hright', Text.unsigned?_lower, hsides, hsides', Text.unsigned?_lower]
  cases negative with
  | true => rfl
  | false =>
    cases Text.unsigned? factor with
    | none => rfl
    | some n =>
      dsimp only
      cases Scale.ofFactor? n with
      | none => rfl
      | some scale =>
        rw [mapError_map, mapError_map, addressRegister_lower]

theorem part_lower (t : SumTerm) : t.lower.part.mapError Complaint.kind = t.part.mapError Complaint.kind := by
  have hstars : t.lower.body.count '*' = t.body.count '*' :=
    Text.count_lower (fun c => Text.toLower_eq_iff (by decide)) t.body
  rw [SumTerm.part, SumTerm.part, hstars]
  split
  · exact simplePart_lower t
  · exact productPart_lower t
  · rfl

/-- The text that errors quote has no say in their kinds. -/
private theorem addressOfParts_kind (operand operand' : List Char) (parts : List AddressPart) :
    (addressOfParts operand parts).mapError Complaint.kind =
      (addressOfParts operand' parts).mapError Complaint.kind := by
  unfold addressOfParts
  dsimp only
  split
  · rfl
  · split
    · rfl
    · split
      · split <;> rfl
      · rfl

theorem readAddress_lower (operand inner : List Char) :
    (readAddress (lower operand) (lower inner)).mapError Complaint.kind =
      (readAddress operand inner).mapError Complaint.kind := by
  rw [readAddress, readAddress, Text.withoutBlanks_lower, sumTerms?_lower]
  cases sumTerms? (Text.withoutBlanks inner) with
  | none => rfl
  | some terms =>
    have hparts : ((terms.map SumTerm.lower).mapM SumTerm.part).mapError Complaint.kind =
        (terms.mapM SumTerm.part).mapError Complaint.kind := by
      rw [mapError_mapM, mapError_mapM, List.mapM_map]
      exact congrArg terms.mapM (funext part_lower)
    dsimp only [Option.map_some]
    rw [mapError_bind, mapError_bind, hparts]
    exact congrArg _ (funext fun parts => addressOfParts_kind _ _ parts)

/-! ### Operands -/

private theorem afterKeyword?_lower (word : String) (s : List Char) :
    afterKeyword? word (lower s) = (afterKeyword? word s).map lower := by
  have htake : (lower s).take word.length = lower (s.take word.length) := List.map_take.symm
  have hdrop : (lower s).drop word.length = lower (s.drop word.length) := List.map_drop.symm
  rw [afterKeyword?, afterKeyword?, htake, hdrop, Text.spells_lower, Text.trimLeft_lower]
  split <;> rfl

private theorem leadingSize_lower (s : List Char) :
    leadingSize (lower s) = ((leadingSize s).1, lower (leadingSize s).2) := by
  have hsize : Width.all.findSome? (fun w => (afterKeyword? w.keyword (lower s)).map fun r => (w, r)) =
      (Width.all.findSome? fun w => (afterKeyword? w.keyword s).map fun r => (w, r)).map (Prod.map id lower) := by
    rw [List.map_findSome?]
    congr 1
    funext w
    rw [afterKeyword?_lower, Function.comp_apply, Option.map_map, Option.map_map]
    rfl
  rw [leadingSize, leadingSize, hsize]
  cases Width.all.findSome? fun w => (afterKeyword? w.keyword s).map fun r => (w, r) with
  | none => rfl
  | some found =>
    dsimp only [Option.map_some, Prod.map]
    rw [afterKeyword?_lower, Option.getD_map]
    rfl

private theorem insideBrackets?_lower (s : List Char) :
    insideBrackets? (lower s) = (insideBrackets? s).map lower := by
  cases s with
  | nil => rfl
  | cons c r =>
    by_cases hc : c = '['
    · subst hc
      have hlast : (lower r).getLast? = some ']' ↔ r.getLast? = some ']' := by
        rw [lower, List.getLast?_map]
        cases r.getLast? with
        | none => simp
        | some x => simpa using Text.toLower_eq_iff (x := ']') (by decide)
      have hinside : (lower r).dropLast = lower r.dropLast := List.map_dropLast.symm
      show insideBrackets? ('[' :: lower r) = _
      rw [insideBrackets?, insideBrackets?, hinside]
      simp only [hlast]
      split <;> rfl
    · have hc' : c.toLower ≠ '[' := fun h => hc ((Text.toLower_eq_iff (by decide)).1 h)
      have hnone : ∀ {x : Char} {t : List Char}, x ≠ '[' → insideBrackets? (x :: t) = none := by
        intro x t hx
        unfold insideBrackets?
        split
        · rename_i h
          exact absurd (List.cons.inj h).1 hx
        · rfl
      show insideBrackets? (c.toLower :: lower r) = _
      rw [hnone hc, hnone hc', Option.map_none]

private theorem readMemory_lower (s : List Char) :
    (readMemory (lower s)).mapError Complaint.kind = (readMemory s).mapError Complaint.kind := by
  rw [readMemory, readMemory, leadingSize_lower]
  dsimp only
  rw [insideBrackets?_lower]
  cases insideBrackets? (leadingSize s).2 with
  | none => rfl
  | some inner =>
    dsimp only [Option.map_some]
    rw [mapError_map, mapError_map, readAddress_lower]

private theorem readSimple_lower (s : List Char) :
    (readSimple (lower s)).mapError Complaint.kind = (readSimple s).mapError Complaint.kind := by
  rw [readSimple, readSimple, Text.firstWord_lower, Text.integer?_lower, Text.isIdentifier_lower,
    RegisterName.ofText?_lower]
  simp only [Text.spells_lower]
  split
  · rfl
  · split
    · rfl
    · split
      · split <;> rfl
      · rfl

theorem readOperand_lower (s : List Char) :
    (readOperand (lower s)).mapError Complaint.kind = (readOperand s).mapError Complaint.kind := by
  have hbracket : ∀ b : Char, (∀ x : Char, x.toLower = b ↔ x = b) → (lower s).contains b = s.contains b := by
    intro b hb
    rw [Bool.eq_iff_iff, List.contains_iff_mem, List.contains_iff_mem, Text.mem_lower hb]
  rw [readOperand, readOperand, hbracket '[' fun x => Text.toLower_eq_iff (by decide),
    hbracket ']' fun x => Text.toLower_eq_iff (by decide)]
  split
  · exact readMemory_lower s
  · exact readSimple_lower s

theorem operand_lower (p : Piece) : p.lower.operand.mapError ParseError.kind = p.operand.mapError ParseError.kind := by
  have hkind : ∀ p : Piece, p.operand.mapError ParseError.kind =
      ((readOperand p.text).mapError Complaint.kind).map fun o => ⟨o, p.column⟩ := by
    intro p
    unfold Piece.operand
    cases readOperand p.text <;> rfl
  have hread : (readOperand p.lower.text).mapError Complaint.kind = (readOperand p.text).mapError Complaint.kind :=
    readOperand_lower p.text
  rw [hkind, hkind, hread]
  rfl

/-! ### Instructions -/

private theorem readMnemonic_lower (word : List Char) (column : Nat) :
    (readMnemonic (lower word) column).mapError ParseError.kind =
      (readMnemonic word column).mapError ParseError.kind := by
  have hcontrol : controlTransfers.any (Text.spells (lower word)) = controlTransfers.any (Text.spells word) :=
    congrArg (List.any controlTransfers) (funext fun name => Text.spells_lower word name)
  rw [readMnemonic, readMnemonic, Mnemonic.ofWord?_lower, hcontrol]
  cases Mnemonic.ofWord? word with
  | some m => rfl
  | none =>
    dsimp only
    split <;> rfl

theorem parse_lower (text : List Char) :
    (parse (lower text)).mapError ParseError.kind = (parse text).mapError ParseError.kind := by
  obtain ⟨line, hline⟩ : ∃ line, withoutComment text = line := ⟨_, rfl⟩
  have hlead : (lower line).takeWhile Text.isBlank = lower (line.takeWhile Text.isBlank) :=
    Text.takeWhile_lower Text.isBlank_toLower line
  have hdrop : ∀ n, (lower line).drop n = lower (line.drop n) := fun n => List.map_drop.symm
  have hoperands : ∀ ps : List Piece, ((ps.map Piece.lower).mapM Piece.operand).mapError ParseError.kind =
      (ps.mapM Piece.operand).mapError ParseError.kind := by
    intro ps
    rw [mapError_mapM, mapError_mapM, List.mapM_map]
    exact congrArg ps.mapM (funext operand_lower)
  unfold parse
  dsimp only
  rw [withoutComment_lower, hline, hlead, Text.length_lower, Text.trimLeft_lower, Text.firstWord_lower,
    Text.length_lower, hdrop, splitOperands_lower]
  simp only [Text.lower_eq_nil]
  split
  · rfl
  · rw [mapError_bind, mapError_bind, readMnemonic_lower]
    congr 1
    funext m
    cases splitOperands _ _ with
    | error e => rfl
    | ok ps =>
      rw [map_ok, ok_bind, ok_bind, mapError_bind, mapError_bind, hoperands]
      congr 1
      funext operands
      split <;> rfl

end Assembly

end LongMode

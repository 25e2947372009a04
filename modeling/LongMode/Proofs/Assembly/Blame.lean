import LongMode.Proofs.Assembly.AddressTerm
import LongMode.Proofs.Assembly.Columns
import LongMode.Proofs.Assembly.Position
import LongMode.Proofs.Assembly.Shape

/-!
# What an error points at

An error in reading an instruction has a token and a column.  Most tokens stand in the text at their column.  The
others, and what stands at their columns instead:

* a token from inside the brackets of an operand: the operand (`Complaint.IsInside`);
* a bracket that stays open: the piece that it is in;
* an immediate that may not come first: the numeral that denotes it.

`complaint_of_readOperand` says which token is taken from an operand, `resolveWidths_eq_error` which operand is to
blame where widths are missing, and `standsAt_of_parse_eq_error` puts the errors of all stages together.
-/

namespace LongMode

/-- The causes that quote a term of an address or a part of it.  An unknown register may also be a whole operand. -/
def ParseCause.quotesTerm : ParseCause → Bool
  | unknownRegister _ | malformedProduct _ | badScale _ | subtractedRegister _ => true
  | malformedTerm _ | narrowAddressRegister _ => true
  | _ => false

/-- The token is taken from inside the brackets of a memory operand, where white space does not count.  It is a term or
a part of one as typed, or the stack pointer in any letter case. -/
inductive Complaint.IsInside (operand : List Char) (c : Complaint) : Prop
  | term (hbracket : '[' ∈ operand) (hcause : c.cause.quotesTerm = true)
      (htoken : c.token <:+: Text.withoutBlanks operand)
  | stackPointer (hbracket : '[' ∈ operand) (hcause : c.cause = .stackPointerIndex)
      (htoken : c.token <:+: Text.lower (Text.withoutBlanks operand))

namespace Assembly

variable {s operand name : List Char} {c : Complaint}

/-! ### Terms of an address -/

/-- The term with its sign, if that is a minus. -/
def SumTerm.written (t : SumTerm) : List Char := if t.negative then '-' :: t.body else t.body

private theorem body_within (t : SumTerm) : t.body <:+: t.written := by
  unfold SumTerm.written
  split
  · exact List.infix_cons List.infix_rfl
  · exact List.infix_rfl

private theorem written_cutAtSigns (s : List Char) :
    (cutAtSigns s).1 <+: s ∧ ∀ t ∈ (cutAtSigns s).2, t.written <:+: s := by
  induction s with
  | nil => exact ⟨List.prefix_rfl, nofun⟩
  | cons c rest ih =>
    obtain ⟨head, terms, hcut⟩ : ∃ head terms, cutAtSigns rest = (head, terms) := ⟨_, _, rfl⟩
    rw [hcut] at ih
    obtain ⟨hhead, hterms⟩ := ih
    have hterms' : ∀ t ∈ terms, t.written <:+: c :: rest := fun t ht => List.infix_cons (hterms t ht)
    rw [cutAtSigns, hcut]
    dsimp only
    by_cases hc : isSign c = true
    · rw [if_pos hc]
      refine ⟨List.nil_prefix, List.forall_mem_cons.2 ⟨?_, hterms'⟩⟩
      unfold SumTerm.written
      split
      · rename_i hminus
        rw [← eq_of_beq hminus]
        exact ((List.prefix_cons_inj c).2 hhead).isInfix
      · exact List.infix_cons hhead.isInfix
    · rw [if_neg hc]
      exact ⟨(List.prefix_cons_inj c).2 hhead, hterms'⟩

/-- Every term of a sum is a part of it. -/
theorem written_sumTerms {terms : List SumTerm} (h : sumTerms? s = some terms) : ∀ t ∈ terms, t.written <:+: s := by
  obtain ⟨head, rest, hcut⟩ : ∃ head rest, cutAtSigns s = (head, rest) := ⟨_, _, rfl⟩
  obtain ⟨hhead, hrest⟩ := written_cutAtSigns s
  rw [hcut] at hhead hrest
  rw [sumTerms?, hcut] at h
  dsimp only at h
  generalize hall : (if head = [] then rest else ⟨false, head⟩ :: rest) = all at h
  split at h
  · cases h
  · cases h
    intro t ht
    rw [← hall] at ht
    split at ht
    · exact hrest t ht
    · rcases List.mem_cons.1 ht with rfl | ht
      · exact hhead.isInfix
      · exact hrest t ht

/-- A product is malformed, or it has a numeral on one side, for which there may be no scale, and a register on the
other one. -/
private theorem productPart_cases (t : SumTerm) : ∃ factor register, factor <:+: t.body ∧ register <:+: t.body ∧
    (productPart t = .error ⟨.malformedProduct t.body, t.body⟩ ∨
      (∃ n, productPart t = .error ⟨.badScale n, factor⟩) ∨
        ∃ k, productPart t = (addressRegister register).map fun r => .scaled r k) := by
  have hleft : t.body.takeWhile (fun c => c != '*') <:+: t.body := (List.takeWhile_prefix _).isInfix
  have hright : (t.body.dropWhile fun c => c != '*').drop 1 <:+: t.body :=
    ((List.drop_suffix _ _).trans (List.dropWhile_suffix _)).isInfix
  unfold productPart
  dsimp only
  generalize hsides : (if (Text.unsigned? (t.body.takeWhile fun c => c != '*')).isSome then _ else _) = sides
  have hparts : sides.1 <:+: t.body ∧ sides.2 <:+: t.body := by
    rw [← hsides]
    split
    · exact ⟨hleft, hright⟩
    · exact ⟨hright, hleft⟩
  refine ⟨sides.1, sides.2, hparts.1, hparts.2, ?_⟩
  split
  · split
    · exact .inr (.inr ⟨_, rfl⟩)
    · exact .inr (.inl ⟨_, rfl⟩)
  · exact .inl rfl

/-! ### Complaints about a term -/

/-- The complaint is about a term of an address and quotes a part of the text. -/
structure QuotesTerm (s : List Char) (c : Complaint) : Prop where
  quotesTerm : c.cause.quotesTerm = true
  token_infix : c.token <:+: s

private theorem addressRegister_eq_error (h : addressRegister name = .error c) : QuotesTerm name c := by
  unfold addressRegister at h
  split at h
  · split at h
    · cases h
    · cases h
      exact ⟨rfl, List.infix_rfl⟩
    · split at h
      · cases h
        exact ⟨rfl, List.infix_rfl⟩
      · cases h
        exact ⟨rfl, List.infix_rfl⟩
  · cases h
    exact ⟨rfl, List.infix_rfl⟩

private theorem QuotesTerm.mono (h : QuotesTerm name c) (hs : name <:+: s) : QuotesTerm s c :=
  ⟨h.quotesTerm, h.token_infix.trans hs⟩

private theorem productPart_eq_error {t : SumTerm} (h : productPart t = .error c) : QuotesTerm t.body c := by
  obtain ⟨factor, register, hfactor, hregister, hcases⟩ := productPart_cases t
  rcases hcases with h' | ⟨n, h'⟩ | ⟨k, h'⟩ <;> rw [h'] at h
  · cases h
    exact ⟨rfl, List.infix_rfl⟩
  · cases h
    exact ⟨rfl, hfactor⟩
  · exact (addressRegister_eq_error (map_eq_error.1 h)).mono hregister

private theorem simplePart_eq_error {t : SumTerm} (h : simplePart t = .error c) : QuotesTerm t.written c := by
  unfold simplePart at h
  split at h
  · cases h
  · split at h
    · rename_i hnegative
      cases h
      rw [SumTerm.written, if_pos hnegative]
      exact ⟨rfl, List.infix_rfl⟩
    · exact (addressRegister_eq_error (map_eq_error.1 h)).mono (body_within t)

theorem part_eq_error {t : SumTerm} (h : t.part = .error c) : QuotesTerm t.written c := by
  unfold SumTerm.part at h
  split at h
  · exact simplePart_eq_error h
  · exact (productPart_eq_error h).mono (body_within t)
  · cases h
    exact ⟨rfl, body_within t⟩

/-- A register that is read has its name in the term. -/
private theorem spells_of_part {t : SumTerm} {p : AddressPart} {r : Cell} (h : t.part = .ok p)
    (hp : p = .plain r ∨ ∃ k, p = .scaled r k) : ∃ name, name <:+: t.written ∧ Text.spells name r.name = true := by
  unfold SumTerm.part at h
  split at h
  · unfold simplePart at h
    split at h
    · cases h
      rcases hp with hp | ⟨k, hp⟩ <;> cases hp
    · split at h
      · cases h
      · obtain ⟨r', hr', rfl⟩ := map_eq_ok.1 h
        rcases hp with hp | ⟨k, hp⟩ <;> cases hp
        exact ⟨t.body, body_within t, addressRegister_eq_ok.1 hr'⟩
  · obtain ⟨factor, register, -, hregister, hcases⟩ := productPart_cases t
    rcases hcases with h' | ⟨n, h'⟩ | ⟨k, h'⟩ <;> rw [h'] at h
    · cases h
    · cases h
    · obtain ⟨r', hr', rfl⟩ := map_eq_ok.1 h
      rcases hp with hp | ⟨k', hp⟩ <;> cases hp
      exact ⟨register, hregister.trans (body_within t), addressRegister_eq_ok.1 hr'⟩
  · cases h

/-! ### Complaints about an operand -/

/-- Registers that add up to no address are the fault of the whole operand, or the stack pointer is among them. -/
private theorem addressOfParts_eq_error {parts : List AddressPart} (h : addressOfParts operand parts = .error c) :
    c.token = operand ∨ c = ⟨.stackPointerIndex, "rsp".toList⟩ ∧
      ∃ p ∈ parts, p = .plain .rsp ∨ ∃ k, p = .scaled .rsp k := by
  obtain ⟨base, index, scale, hregisters⟩ : ∃ base index scale,
    baseAndIndex (plainRegisters parts) (scaledRegisters parts) = (base, index, scale) := ⟨_, _, _, rfl⟩
  unfold addressOfParts at h
  dsimp only at h
  rw [hregisters] at h
  split at h
  · cases h
    exact .inl rfl
  · rename_i hcount
    dsimp only at h
    split at h
    · cases h
      exact .inl rfl
    · split at h
      · rename_i hindex
        subst hindex
        split at h
        · cases h
        · cases h
          refine .inr ⟨rfl, ?_⟩
          rcases baseAndIndex_cases (by omega) hregisters with
            ⟨-, hplain, -, -⟩ | ⟨_, -, -, -, hnone, -⟩ | ⟨r, hscaled, -, hr, -⟩
          · have hmem : Cell.rsp ∈ plainRegisters parts := by simp [hplain]
            exact ⟨_, mem_plainRegisters.1 hmem, .inl rfl⟩
          · cases hnone
          · obtain rfl : Cell.rsp = r := Option.some.inj hr
            have hmem : (Cell.rsp, scale) ∈ scaledRegisters parts := by simp [hscaled]
            exact ⟨_, mem_scaledRegisters.1 hmem, .inr ⟨scale, rfl⟩⟩
      · cases h

private theorem readAddress_eq_error {inner : List Char} (hbracket : '[' ∈ operand) (hinner : inner <:+: operand)
    (h : readAddress operand inner = .error c) : c.token = operand ∨ c.IsInside operand := by
  have hblanks : Text.withoutBlanks inner <:+: Text.withoutBlanks operand := hinner.filter _
  unfold readAddress at h
  split at h
  · cases h
    exact .inl rfl
  · rename_i terms hterms
    have hwritten := written_sumTerms hterms
    rcases bind_eq_error.1 h with h | ⟨parts, hparts, h⟩
    · obtain ⟨t, ht, he⟩ := exists_mem_of_mapM_eq_error h
      have hquotes := part_eq_error he
      exact .inr (.term hbracket hquotes.quotesTerm (hquotes.token_infix.trans ((hwritten t ht).trans hblanks)))
    · rcases addressOfParts_eq_error h with h | ⟨rfl, p, hp, hrsp⟩
      · exact .inl h
      · obtain ⟨t, ht, hpart⟩ := exists_mem_of_mapM_eq_ok hparts hp
        obtain ⟨name, hname, hspells⟩ := spells_of_part hpart hrsp
        have hlower : Text.lower name = "rsp".toList := eq_of_beq hspells
        have hinfix := (hname.trans ((hwritten t ht).trans hblanks)).map Char.toLower
        exact .inr (.stackPointer hbracket rfl (hlower ▸ hinfix))

private theorem leadingSize_suffix (s : List Char) : (leadingSize s).2 <:+ s := by
  have hkeyword {word : String} {s r : List Char} (h : afterKeyword? word s = some r) : r <:+ s := by
    unfold afterKeyword? at h
    split at h
    · cases h
      exact (List.dropWhile_suffix _).trans (List.drop_suffix _ _)
    · cases h
  unfold leadingSize
  split
  · rename_i w r h
    obtain ⟨w', -, hw'⟩ := List.exists_of_findSome?_eq_some h
    obtain ⟨r', hr', heq⟩ := Option.map_eq_some_iff.1 hw'
    cases heq
    dsimp only
    cases hptr : afterKeyword? "ptr" r with
    | none => exact hkeyword hr'
    | some r'' => exact (hkeyword hptr).trans (hkeyword hr')
  · exact List.suffix_rfl

private theorem leadingSize_eq_self (s : List Char) (h : (leadingSize s).1 = none) : (leadingSize s).2 = s := by
  unfold leadingSize at h ⊢
  split
  · simp_all
  · rfl

/-- A complaint about an operand quotes all of it or something inside its brackets. -/
theorem complaint_of_readOperand (h : readOperand operand = .error c) :
    c.token = operand ∨ c.IsInside operand := by
  rcases readOperand_eq_error h with htoken | ⟨inner, hinner, h⟩
  · exact .inl htoken
  · have hsuffix := leadingSize_suffix operand
    rw [hinner] at hsuffix
    have hbracket : '[' ∈ operand := hsuffix.subset List.mem_cons_self
    have hpart : inner <:+: operand := (List.infix_cons (List.infix_append [] inner [']'])).trans hsuffix.isInfix
    exact readAddress_eq_error hbracket hpart h

/-! ### Complaints about widths -/

/-- Without a size keyword the bracket comes first. -/
private theorem bracket_first {a : Address} (h : readOperand operand = .ok (.memory a none)) :
    ['['] <+: operand := by
  obtain ⟨inner, hinner, hsize, -⟩ := exists_readAddress_of_readOperand h
  rw [leadingSize_eq_self operand hsize] at hinner
  exact ⟨_, hinner.symm⟩

/-- A memory operand has no size, or an immediate comes first. -/
theorem resolveWidths_eq_error {m : Mnemonic} {operands : List PlacedOperand} {e : ParseError}
    (h : resolveWidths m operands = .error e) : ∃ p ∈ operands, e.column = p.column ∧
      ((∃ a, p.operand = .memory a none ∧ e.complaint = ⟨.unknownSize, ['[']⟩) ∨
        ∃ z, p.operand = .immediate z ∧ e.complaint = ⟨.immediateDestination z, (Text.decimal z).toList⟩) := by
  rcases bind_eq_error.1 h with h | ⟨sized, hsized, h⟩
  · obtain ⟨⟨p, i⟩, hp, he⟩ := exists_mem_of_mapM_eq_error h
    refine ⟨p, List.fst_mem_of_mem_zipIdx hp, ?_⟩
    dsimp only at he
    unfold sizeMemory at he
    split at he
    · cases he
    · cases he
    · cases he
    · rename_i a width hmemory
      split at he
      · cases he
      · rename_i hwidth
        cases he
        cases width with
        | none => exact ⟨rfl, .inl ⟨a, hmemory, rfl⟩⟩
        | some w => cases hwidth
  · obtain ⟨⟨o, i⟩, ho, he⟩ := exists_mem_of_mapM_eq_error h
    dsimp only at he
    unfold sizeImmediate at he
    split at he
    · cases he
    · rename_i z column
      split at he
      · cases he
      · cases he
        obtain ⟨⟨p, j⟩, hp, hliteral⟩ := exists_mem_of_mapM_eq_ok hsized (List.fst_mem_of_mem_zipIdx ho)
        refine ⟨p, List.fst_mem_of_mem_zipIdx hp, ?_⟩
        dsimp only at hliteral
        unfold sizeMemory at hliteral
        split at hliteral
        · cases hliteral
        · cases hliteral
        · rename_i z' himmediate
          cases hliteral
          exact ⟨rfl, .inr ⟨z, himmediate, rfl⟩⟩
        · split at hliteral <;> cases hliteral

end Assembly

/-! ### Errors -/

open Assembly

/-- The causes whose tokens need not stand at the column: parts of an address, a bracket that stays open, and an
immediate, which is quoted as a decimal number. -/
def ParseCause.mayStandElsewhere : ParseCause → Bool
  | stackPointerIndex | unbalancedOpen | immediateDestination _ => true
  | cause => cause.quotesTerm

/-- What stands in a text at the column of an error: its token; the memory operand from which the token is taken; text
without commas and brackets before the token; or the numeral that the token is the value of. -/
inductive ParseError.PointsInto (text : List Char) (e : ParseError) : Prop
  | token (h : StandsAt text e.column e.token)
  | memory {operand : List Char} (h : StandsAt text e.column operand)
      (hread : readOperand operand = .error e.complaint) (hinside : e.complaint.IsInside operand)
  | openBracket {lead : List Char} (hcause : e.cause = .unbalancedOpen) (htoken : e.token = ['['])
      (hlead : ∀ c ∈ lead, isDelimiter c = false) (h : StandsAt text e.column (lead ++ e.token))
  | immediate {numeral : List Char} {z : Int} (hz : Text.integer? numeral = some z)
      (hcomplaint : e.complaint = ⟨.immediateDestination z, (Text.decimal z).toList⟩)
      (h : StandsAt text e.column numeral)

namespace Assembly

variable {text : List Char} {e : ParseError}

private theorem standsAt_firstWord (line : List Char) :
    StandsAt line (line.takeWhile Text.isBlank).length (Text.firstWord (Text.trimLeft line)) := by
  have hline : StandsAt line 0 (line.takeWhile Text.isBlank ++ Text.trimLeft line) := by
    rw [Text.trimLeft, List.takeWhile_append_dropWhile, standsAt_iff]
    exact List.prefix_rfl
  have hrest := hline.drop
  rw [Nat.zero_add] at hrest
  exact hrest.beginning (List.takeWhile_prefix _)

section

variable {pieces : List Piece} (hpieces : ∀ p ∈ pieces, StandsAt text p.column p.text)
include hpieces

private theorem pointsInto_of_operands (h : pieces.mapM Piece.operand = .error e) : e.PointsInto text := by
  obtain ⟨p, hp, hread⟩ := exists_mem_of_mapM_eq_error h
  have hstands := hpieces p hp
  unfold Piece.operand at hread
  split at hread
  · cases hread
  · rename_i c hc
    cases hread
    rcases complaint_of_readOperand hc with htoken | hinside
    · refine .token ?_
      show StandsAt text p.column c.token
      rw [htoken]
      exact hstands
    · exact .memory hstands hc hinside

/-- The operands that were read still stand where their pieces do. -/
private theorem pointsInto_of_resolveWidths {m : Mnemonic} {operands : List PlacedOperand}
    (hoperands : pieces.mapM Piece.operand = .ok operands) (h : resolveWidths m operands = .error e) :
    e.PointsInto text := by
  obtain ⟨o, ho, hcolumn, hcases⟩ := resolveWidths_eq_error h
  obtain ⟨p, hp, hread⟩ := exists_mem_of_mapM_eq_ok hoperands ho
  have hstands := hpieces p hp
  unfold Piece.operand at hread
  split at hread
  · rename_i raw hraw
    cases hread
    have hcolumn' : e.column = p.column := hcolumn
    rw [← hcolumn'] at hstands
    rcases hcases with ⟨a, hmemory, hcomplaint⟩ | ⟨z, himmediate, hcomplaint⟩
    · obtain rfl : raw = .memory a none := hmemory
      have htoken : e.token = ['['] := congrArg Complaint.token hcomplaint
      refine .token (hstands.beginning ?_)
      rw [htoken]
      exact bracket_first hraw
    · obtain rfl : raw = .immediate z := himmediate
      exact .immediate (integer?_of_readOperand hraw) hcomplaint hstands
  · cases hread

end

/-- The errors of each stage in turn. -/
private theorem pointsInto_of_parse (h : parse text = .error e) (he : e.token ≠ []) : e.PointsInto text := by
  obtain ⟨line, hline⟩ : ∃ line, withoutComment text = line := ⟨_, rfl⟩
  obtain ⟨column, hcolumn⟩ : ∃ column, (line.takeWhile Text.isBlank).length = column := ⟨_, rfl⟩
  obtain ⟨word, hword⟩ : ∃ word, Text.firstWord (Text.trimLeft line) = word := ⟨_, rfl⟩
  have hplace {s : List Char} {k : Nat} (hs : StandsAt line k s)
      (hlast : ∀ c, s.getLast? = some c → Text.isBlank c = false) : StandsAt text k s := by
    rw [← hline] at hs
    exact hs.of_withoutComment hlast
  have hfirst : StandsAt text column word := by
    have hstands := standsAt_firstWord line
    rw [hcolumn, hword] at hstands
    refine hplace hstands ?_
    rw [← hword]
    exact fun c hc => Text.isBlank_of_mem_firstWord (List.mem_of_getLast? hc)
  have hrest : StandsAt line (column + word.length) (line.drop (column + word.length)) :=
    standsAt_iff.2 List.prefix_rfl
  unfold parse at h
  dsimp only at h
  rw [hline, hcolumn, hword] at h
  split at h
  · cases h
    exact absurd rfl he
  · rcases bind_eq_error.1 h with h | ⟨m, -, h⟩
    · unfold readMnemonic at h
      split at h
      · cases h
      · split at h <;> cases h <;> exact .token hfirst
    · rcases bind_eq_error.1 h with h | ⟨pieces, hsplit, h⟩
      · rcases splitOperands_eq_error hrest h he with ⟨-, htoken, hstands⟩ | ⟨hcause, htoken, lead, hlead, hstands⟩
        · refine .token (hplace hstands ?_)
          intro c hc
          obtain rfl : ']' = c := by simpa [htoken] using hc
          decide
        · refine .openBracket hcause htoken hlead (hplace hstands ?_)
          intro c hc
          obtain rfl : '[' = c := by simpa [htoken] using hc
          decide
      · have hpieces : ∀ p ∈ pieces, StandsAt text p.column p.text := by
          intro p hp
          obtain ⟨hstands, hlast⟩ := standsAt_of_splitOperands hrest hsplit hp
          exact hplace hstands hlast
        rcases bind_eq_error.1 h with h | ⟨operands, hoperands, h⟩
        · exact pointsInto_of_operands hpieces h
        · split at h
          · cases h
            exact .token hfirst
          · rcases bind_eq_error.1 h with h | ⟨os, -, h⟩
            · exact pointsInto_of_resolveWidths hpieces hoperands h
            · cases h

private theorem bracket_mem_of_isInside {operand : List Char} (h : e.complaint.IsInside operand) :
    '[' ∈ operand ∧ e.cause.mayStandElsewhere = true := by
  have hterm : ∀ cause : ParseCause, cause.quotesTerm = true → cause.mayStandElsewhere = true := by
    intro cause h
    cases cause <;> first | rfl | cases h
  cases h with
  | term hbracket hcause _ => exact ⟨hbracket, hterm e.cause hcause⟩
  | stackPointer hbracket hcause _ =>
    have hcause' : e.cause = .stackPointerIndex := hcause
    rw [hcause']
    exact ⟨hbracket, rfl⟩

/-- The token of an error stands in the text at the column, unless the cause is one of a few; and these too, but for an
immediate that comes first, need an opening bracket in the text.  In any case the column is that of the text which the
token is taken from. -/
theorem standsAt_of_parse_eq_error (h : parse text = .error e) (he : e.token ≠ []) :
    (e.cause.mayStandElsewhere = false → StandsAt text e.column e.token) ∧
      ('[' ∉ text → (∀ z, e.cause ≠ .immediateDestination z) → StandsAt text e.column e.token) ∧
      e.PointsInto text := by
  have hpoints := pointsInto_of_parse h he
  refine ⟨?_, ?_, hpoints⟩
  · intro hcause
    cases hpoints with
    | token h => exact h
    | memory h hread hinside =>
      rw [(bracket_mem_of_isInside hinside).2] at hcause
      cases hcause
    | openBracket hopen htoken hlead h =>
      rw [hopen] at hcause
      cases hcause
    | immediate hz hcomplaint h =>
      have himmediate : e.cause = .immediateDestination _ := congrArg Complaint.cause hcomplaint
      rw [himmediate] at hcause
      cases hcause
  · intro hbracket hcause
    cases hpoints with
    | token h => exact h
    | memory h hread hinside => exact absurd (h.mem (bracket_mem_of_isInside hinside).1) hbracket
    | openBracket hopen htoken hlead h =>
      have hmem : '[' ∈ e.token := htoken ▸ List.mem_cons_self
      exact absurd (h.mem (List.mem_append_right _ hmem)) hbracket
    | immediate hz hcomplaint h => exact absurd (congrArg Complaint.cause hcomplaint) (hcause _)

/-- The white space in front and the comment do not move the second operand, and white space inside does not end it. -/
theorem standsAt_of_parse_eq_error_operand : ∃ e, parse "  mov rax, rbx 1 ; sum".toList = .error e ∧ e.token ≠ [] ∧
    e.cause.mayStandElsewhere = false ∧ e.column = 11 ∧ StandsAt "  mov rax, rbx 1 ; sum".toList 11 e.token := by
  have h : parse "  mov rax, rbx 1 ; sum".toList =
      .error ⟨.unreadableOperand "rbx 1".toList, "rbx 1".toList, 11⟩ := rfl
  exact ⟨_, h, by decide, rfl, rfl, (standsAt_of_parse_eq_error h (by decide)).1 rfl⟩

/-- A register inside brackets, a bracket after white space and a hexadecimal numeral, with the columns where their
tokens do not stand. -/
theorem not_standsAt_of_parse_eq_error :
    (parse "mov rax, [rbz]".toList = .error ⟨.unknownRegister "rbz".toList, "rbz".toList, 9⟩ ∧
      ¬ StandsAt "mov rax, [rbz]".toList 9 "rbz".toList ∧ StandsAt "mov rax, [rbz]".toList 10 "rbz".toList) ∧
    (parse "mov rax, [rbx".toList = .error ⟨.unbalancedOpen, "[".toList, 8⟩ ∧
      ¬ StandsAt "mov rax, [rbx".toList 8 "[".toList ∧ StandsAt "mov rax, [rbx".toList 9 "[".toList) ∧
    parse "add 0x10, rax".toList = .error ⟨.immediateDestination 16, "16".toList, 4⟩ ∧
      ∀ column, ¬ StandsAt "add 0x10, rax".toList column "16".toList := by
  refine ⟨⟨rfl, by decide, by decide⟩, ⟨rfl, by decide, by decide⟩, rfl, ?_⟩
  intro column h
  have hmem : '6' ∈ "add 0x10, rax".toList := h.mem (by decide)
  exact absurd hmem (by decide)

end Assembly

end LongMode

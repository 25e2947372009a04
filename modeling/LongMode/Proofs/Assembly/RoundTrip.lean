import LongMode.Proofs.Assembly.AddressText
import LongMode.Proofs.Assembly.Comment
import LongMode.Proofs.Assembly.Numeral

/-!
# Instructions read back

The text of an instruction that was read is read as the same instruction, with one exception: an address that consists
of a scaled index alone loses its zero displacement when it is written, and without it the address is refused.

* `readOperand_text` and `readOperand_bare`: one operand.
* `resolveWidths_raw`: every width is in the text, or follows from the first operand and the mnemonic.
* `exists_pieces`: reading the text of an instruction is reading the texts of its operands.
* `parse_text`: which instructions are read back, and what happens to the others.
-/

namespace LongMode

/-- An operand as it is read, before immediates get their width. -/
def Operand.raw : Operand → Assembly.RawOperand
  | register v => .register v
  | vector x => .vector x
  | immediate z _ => .immediate z
  | memory l => .memory l.address (some l.width)

namespace Assembly

/-! ### The texts of operands -/

/-- What the place of an operand in a line asks of its text. -/
structure IsOperandText (s : List Char) : Prop where
  ne_nil : s ≠ []
  trimmed : Text.trim s = s
  passes : Passes 0 0 s
  uncommented : ∀ c ∈ s, startsComment c = false

private theorem isOperandText_of_sum {s : List Char} (hne : s ≠ []) (h : ∀ c ∈ s, c ∈ sumCharacters) :
    IsOperandText s where
  ne_nil := hne
  trimmed := Text.trim_eq_self (fun c hc => (of_mem_sumCharacters c (h c (List.mem_of_head? hc))).1)
    fun c hc => (of_mem_sumCharacters c (h c (List.mem_of_getLast? hc))).1
  passes := .of_plain fun c hc => (of_mem_sumCharacters c (h c hc)).2.1
  uncommented c hc := (of_mem_sumCharacters c (h c hc)).2.2

theorem signedHex_characters (z : Int) :
    (Text.signedHex z).toList ≠ [] ∧ ∀ c ∈ (Text.signedHex z).toList, c ∈ sumCharacters := by
  rw [Text.toList_signedHex]
  refine ⟨by simp [Text.toList_hex], fun c hc => ?_⟩
  rcases List.mem_append.1 hc with hc | hc
  · split at hc
    · obtain rfl := List.mem_singleton.1 hc
      decide
    · cases hc
  · exact mem_sumCharacters (Text.mem_hex c hc)

/-- The text of a memory operand, split at its opening bracket. -/
theorem toList_location (l : Location) :
    l.text.toList = (l.width.keyword ++ " ptr ").toList ++ '[' :: (l.address.text.toList ++ [']']) := by
  simp [Location.text]

theorem addressText_characters (a : Address) : ∀ c ∈ a.text.toList, c ∈ sumCharacters := by
  rw [toList_text]
  exact sumText_characters _

private theorem isOperandText_location (l : Location) : IsOperandText l.text.toList := by
  have hlead : ∀ c ∈ (l.width.keyword ++ " ptr ").toList, isDelimiter c = false ∧ startsComment c = false := by
    cases l.width <;> exact Text.forall_mem_of_all (by decide)
  have hinner := addressText_characters l.address
  rw [toList_location]
  refine ⟨by simp, Text.trim_eq_self ?_ ?_, ?_, fun c hc => ?_⟩
  · cases l.width <;> simp [Width.keyword] <;> decide
  · intro c hc
    rw [← List.cons_append, ← List.append_assoc, List.getLast?_concat, Option.some.injEq] at hc
    subst hc
    decide
  · refine (Passes.of_plain fun c hc => (hlead c hc).1).append (Passes.bracketed (Passes.of_plain fun c hc => ?_))
    exact (of_mem_sumCharacters c (hinner c hc)).2.1
  · simp only [List.mem_append, List.mem_cons, List.not_mem_nil, or_false] at hc
    rcases hc with hc | rfl | hc | rfl
    · exact (hlead c hc).2
    · decide
    · exact (of_mem_sumCharacters c (hinner c hc)).2.2
    · decide

theorem isOperandText (o : Operand) : IsOperandText o.text.toList := by
  cases o with
  | register v =>
    obtain ⟨hne, h⟩ := v.name_characters
    exact isOperandText_of_sum hne fun c hc => mem_sumCharacters (h c hc)
  | vector x =>
    obtain ⟨hne, h⟩ := x.name_characters
    exact isOperandText_of_sum hne fun c hc => mem_sumCharacters (h c hc)
  | immediate z n => exact isOperandText_of_sum (signedHex_characters z).1 (signedHex_characters z).2
  | memory l => exact isOperandText_location l

/-! ### Reading one operand -/

private theorem readOperand_view (v : View) : readOperand v.name.toList = .ok (.register v) := by
  cases v with
  | low c w => cases c <;> cases w <;> rfl
  | high b => cases b <;> rfl

private theorem readOperand_vector (x : VectorRegister) : readOperand x.name.toList = .ok (.vector x) := by
  have hall : ∀ n : Fin 16, (readOperand (VectorRegister.mk n).name.toList).toOption = some (.vector ⟨n⟩) := by decide
  have hx := hall x.number
  cases hr : readOperand x.name.toList with
  | error e => rw [hr] at hx; cases hx
  | ok o => rw [hr] at hx; cases hx; rfl

/-- Reading a memory operand is reading its address. -/
private theorem readOperand_location (l : Location) : readOperand l.text.toList =
    (readAddress l.text.toList l.address.text.toList).map fun a => .memory a (some l.width) := by
  have hbrackets : l.text.toList.contains '[' = true := by
    rw [toList_location]
    simp
  have hsize : leadingSize l.text.toList = (some l.width, '[' :: (l.address.text.toList ++ [']'])) := by
    rw [toList_location]
    cases l.width <;> rfl
  have hinside : insideBrackets? ('[' :: (l.address.text.toList ++ [']'])) = some l.address.text.toList := by
    simp [insideBrackets?]
  rw [readOperand, hbrackets, Bool.true_or, if_pos rfl, readMemory, hsize]
  dsimp only
  rw [hinside]

theorem readOperand_text {o : Operand}
    (h : ∀ l, o = .memory l → l.address.WellFormed ∧ ¬l.address.IsBareIndex) :
    readOperand o.text.toList = .ok o.raw := by
  cases o with
  | register v => exact readOperand_view v
  | vector x => exact readOperand_vector x
  | immediate z n => exact readOperand_eq_immediate.2 (Text.integer?_signedHex z)
  | memory l =>
    obtain ⟨hw, hb⟩ := h l rfl
    exact (readOperand_location l).trans (by rw [readAddress_text, addressOfParts_parts _ hw hb]; rfl)

theorem readOperand_bare {l : Location} (h : l.address.WellFormed) (hb : l.address.IsBareIndex) :
    readOperand l.text.toList = .error ⟨.noBase l.text.toList, l.text.toList⟩ := by
  rw [readOperand_location, readAddress_text, addressOfParts_bare _ h hb]
  rfl

/-! ### Widths -/

/-- An operand with its width, unless it is an immediate. -/
private def sized (o : Operand) (p : PlacedOperand) : SizedOperand :=
  match o with
  | .immediate z _ => .literal z p.column
  | o => .known o

private theorem sizeMemory_raw {m : Mnemonic} {widths : List Width} {p : PlacedOperand} {o : Operand}
    (h : p.operand = o.raw) (k : Nat) : sizeMemory m widths p k = .ok (sized o p) := by
  cases o <;> simp [sizeMemory, h, Operand.raw, sized]

private theorem sizeImmediate_sized {i : Instruction} (h : i.WellFormed) {o first : Operand} {p p' : PlacedOperand}
    {k : Nat} (ho : i.operands[k]? = some o) (hfirst : i.operands[0]? = some first) :
    sizeImmediate i.mnemonic (some (sized first p')) (sized o p) k = .ok o := by
  cases o with
  | register v => rfl
  | vector x => rfl
  | memory l => rfl
  | immediate z n =>
    have hbits : immediateBits? i.mnemonic k (some (sized first p')) = some n := by
      rw [h.immediate k z n first ho hfirst]
      unfold immediateBits? Mnemonic.immediateBits
      by_cases hshift : i.mnemonic.isShift = true ∧ k = 1
      · rw [if_pos hshift, if_pos hshift]
      by_cases hpush : i.mnemonic = .push
      · rw [if_neg hshift, if_neg hshift, if_pos hpush, if_pos hpush]
      have hfirst' : ∀ z n, first ≠ .immediate z n := fun z n he => hpush (h.first z n (he ▸ hfirst))
      have hk : k ≠ 0 := fun hk => hpush (h.first z n (hk ▸ ho))
      rw [if_neg hshift, if_neg hshift, if_neg hpush, if_neg hpush, if_neg hk]
      cases first with
      | immediate z' n' => exact absurd rfl (hfirst' z' n')
      | register v => rfl
      | vector x => rfl
      | memory l => rfl
    change sizeImmediate i.mnemonic (some (sized first p')) (.literal z p.column) k = _
    simp only [sizeImmediate, hbits]

/-- A list of computations with their positions. -/
private theorem mapM_zipIdx {ε α β : Type} {f : α × Nat → Except ε β} {xs : List α} {ys : List β}
    (hl : xs.length = ys.length) (h : ∀ k x y, xs[k]? = some x → ys[k]? = some y → f (x, k) = .ok y) :
    xs.zipIdx.mapM f = .ok ys := by
  rw [mapM_eq_ok]
  refine List.ext_getElem? fun k => ?_
  rw [List.getElem?_map, List.getElem?_map, List.getElem?_zipIdx]
  by_cases hk : k < xs.length
  · have hx := List.getElem?_eq_getElem hk
    have hy := List.getElem?_eq_getElem (hl ▸ hk : k < ys.length)
    simp only [hx, hy, Option.map_some, Nat.zero_add]
    rw [h k _ _ hx hy]
  · rw [List.getElem?_eq_none (by omega), List.getElem?_eq_none (by omega)]
    rfl

theorem resolveWidths_raw {i : Instruction} (h : i.WellFormed) {operands : List PlacedOperand}
    (ho : operands.map PlacedOperand.operand = i.operands.map Operand.raw) :
    resolveWidths i.mnemonic operands = .ok i.operands := by
  have hl : operands.length = i.operands.length := by simpa using congrArg List.length ho
  have hraw : ∀ (k : Nat) (p : PlacedOperand) (o : Operand), operands[k]? = some p → i.operands[k]? = some o →
      p.operand = o.raw := by
    intro k p o hp ho'
    have hk := congrArg (fun l => l[k]?) ho
    simpa [hp, ho'] using hk
  refine bind_eq_ok.2 ⟨i.operands.zipWith sized operands, mapM_zipIdx (by simp [hl]) fun k p s hp hs => ?_,
    mapM_zipIdx (by simp [hl]) fun k s o hs ho' => ?_⟩
  · obtain ⟨o, p', ho', hp', rfl⟩ := List.getElem?_zipWith_eq_some.1 hs
    obtain rfl : p' = p := by simpa [hp] using hp'.symm
    exact sizeMemory_raw (hraw k p' o hp ho') k
  · obtain ⟨o', p, ho'', hp, rfl⟩ := List.getElem?_zipWith_eq_some.1 hs
    obtain rfl : o = o' := by simpa [ho'] using ho''
    -- there is a first operand, since there is one at position `k`
    have hpos : 0 < i.operands.length := by
      have hk := (List.getElem?_eq_some_iff.1 ho').1
      omega
    have hfirst := List.getElem?_eq_getElem hpos
    have hhead : (i.operands.zipWith sized operands).head? = some (sized i.operands[0] operands[0]) := by
      rw [List.head?_eq_getElem?, List.getElem?_zipWith_eq_some]
      exact ⟨_, _, hfirst, List.getElem?_eq_getElem (hl ▸ hpos), rfl⟩
    rw [hhead]
    exact sizeImmediate_sized h ho' hfirst

/-! ### Instructions -/

private theorem intercalate_spaced (s : List Char) (rest : List (List Char)) :
    [','].intercalate ((s :: rest).map (' ' :: ·)) = ' ' :: [',', ' '].intercalate (s :: rest) := by
  induction rest generalizing s with
  | nil => simp
  | cons t rest ih =>
    have ht := ih t
    simp only [List.map_cons] at ht ⊢
    rw [List.intercalate_cons_cons, ht, List.intercalate_cons_cons]
    simp

theorem toList_instruction (i : Instruction) : i.text.toList =
    i.mnemonic.name.toList ++ [','].intercalate ((i.operands.map fun o => o.text.toList).map (' ' :: ·)) := by
  obtain ⟨m, operands⟩ := i
  cases operands with
  | nil => simp [Instruction.text]
  | cons o rest =>
    rw [List.map_cons, intercalate_spaced]
    simp [Instruction.text, String.toList_intercalate, Function.comp_def]

theorem mnemonic_characters (m : Mnemonic) : m.name.toList ≠ [] ∧ ∀ c ∈ m.name.toList, c ∈ Text.wordCharacters := by
  cases m <;> exact ⟨by decide, Text.forall_mem_of_all (by decide)⟩

private theorem eq_or_exists_of_mem_intercalate {texts : List (List Char)} {c : Char}
    (hc : c ∈ [','].intercalate texts) : c = ',' ∨ ∃ s ∈ texts, c ∈ s := by
  induction texts with
  | nil => cases hc
  | cons s rest ih =>
    cases rest with
    | nil => exact .inr ⟨s, List.mem_cons_self, by simpa using hc⟩
    | cons t rest =>
      rw [List.intercalate_cons_cons, List.mem_append, List.mem_append, List.mem_singleton] at hc
      obtain (hc | hc) | hc := hc
      · exact .inr ⟨s, List.mem_cons_self, hc⟩
      · exact .inl hc
      · exact (ih hc).imp_right fun ⟨u, hu, hcu⟩ => ⟨u, List.mem_cons_of_mem _ hu, hcu⟩

private theorem withoutComment_instruction (i : Instruction) : withoutComment i.text.toList = i.text.toList := by
  have hword : ∀ c ∈ Text.wordCharacters, startsComment c = false :=
    Text.forall_mem_of_all (by decide)
  refine withoutComment_eq_self fun c hc => ?_
  rw [toList_instruction, List.mem_append] at hc
  rcases hc with hc | hc
  · exact hword c ((mnemonic_characters i.mnemonic).2 c hc)
  · rcases eq_or_exists_of_mem_intercalate hc with rfl | ⟨s, hs, hc⟩
    · decide
    · simp only [List.map_map, List.mem_map, Function.comp_apply] at hs
      obtain ⟨o, -, rfl⟩ := hs
      rcases List.mem_cons.1 hc with rfl | hc
      · decide
      · exact (isOperandText o).uncommented c hc

/-- The operands of an instruction are found in what follows its mnemonic. -/
private theorem splitOperands_instruction (operands : List Operand) (column : Nat) : ∃ pieces,
    splitOperands column ([','].intercalate ((operands.map fun o => o.text.toList).map (' ' :: ·))) = .ok pieces ∧
      pieces.map Piece.text = operands.map fun o => o.text.toList := by
  by_cases hne : operands = []
  · subst hne
    exact ⟨[], rfl, rfl⟩
  · refine splitOperands_intercalate column (by simpa using hne) (fun s hs => ?_) fun s hs => ?_
    · obtain ⟨o, -, rfl⟩ := List.mem_map.1 hs
      exact (isOperandText o).passes
    · obtain ⟨o, -, rfl⟩ := List.mem_map.1 hs
      exact ⟨(isOperandText o).ne_nil, (isOperandText o).trimmed⟩

private theorem readMnemonic_name (m : Mnemonic) (column : Nat) : readMnemonic m.name.toList column = .ok m := by
  cases m <;> rfl

/-- The text of an instruction is the name of its mnemonic and the texts of its operands, and is read as such. -/
theorem exists_pieces (i : Instruction) : ∃ pieces : List Piece,
    pieces.map Piece.text = i.operands.map (fun o => o.text.toList) ∧ parse i.text.toList = do
      let operands ← pieces.mapM Piece.operand
      if !i.mnemonic.operandCounts.contains operands.length then
        .error ⟨.operandCount i.mnemonic operands.length, i.mnemonic.name.toList, 0⟩
      return ⟨i.mnemonic, ← resolveWidths i.mnemonic operands⟩ := by
  obtain ⟨hne, hname⟩ := mnemonic_characters i.mnemonic
  have hink : ∀ c ∈ i.mnemonic.name.toList, Text.isBlank c = false :=
    fun c hc => (of_mem_sumCharacters c (mem_sumCharacters (hname c hc))).1
  have hhead : ∀ c, i.text.toList.head? = some c → Text.isBlank c = false := by
    intro c hc
    cases hn : i.mnemonic.name.toList with
    | nil => exact absurd hn hne
    | cons c' name =>
      rw [toList_instruction, hn] at hc
      obtain rfl : c' = c := by simpa using hc
      exact hink c' (hn ▸ List.mem_cons_self)
  have hword : Text.firstWord i.text.toList = i.mnemonic.name.toList := by
    rw [toList_instruction]
    refine Text.firstWord_append hink fun c hc => ?_
    cases ho : i.operands.map fun o => o.text.toList with
    | nil => simp [ho] at hc
    | cons s rest =>
      rw [ho, intercalate_spaced] at hc
      obtain rfl : ' ' = c := by simpa using hc
      rfl
  obtain ⟨pieces, hsplit, htexts⟩ := splitOperands_instruction i.operands i.mnemonic.name.toList.length
  refine ⟨pieces, htexts, ?_⟩
  have hdrop : i.text.toList.drop i.mnemonic.name.toList.length =
      [','].intercalate ((i.operands.map fun o => o.text.toList).map (' ' :: ·)) := by
    rw [toList_instruction, List.drop_left]
  simp only [parse, withoutComment_instruction, Text.trimLeft_eq_self hhead, hword, Text.takeWhile_eq_nil hhead,
    List.length_nil, Nat.zero_add, hdrop, readMnemonic_name, hsplit, if_neg hne]
  rfl

theorem mapM_operand_pieces {pieces : List Piece} {operands : List Operand}
    (hp : pieces.map Piece.text = operands.map fun o => o.text.toList)
    (h : ∀ l, .memory l ∈ operands → l.address.WellFormed ∧ ¬l.address.IsBareIndex) :
    ∃ placed, pieces.mapM Piece.operand = .ok placed ∧
      placed.map PlacedOperand.operand = operands.map Operand.raw := by
  induction operands generalizing pieces with
  | nil =>
    obtain rfl : pieces = [] := by simpa using hp
    exact ⟨[], rfl, rfl⟩
  | cons o operands ih =>
    obtain ⟨p, pieces, rfl, hpo, hrest⟩ := List.map_eq_cons_iff.1 hp
    obtain ⟨placed, hplaced, hraw⟩ := ih hrest fun l hl => h l (List.mem_cons_of_mem _ hl)
    have hread : p.operand = .ok ⟨o.raw, p.column⟩ := by
      rw [Piece.operand, hpo, readOperand_text fun l hl => h l (hl ▸ List.mem_cons_self)]
    refine ⟨⟨o.raw, p.column⟩ :: placed, ?_, by rw [List.map_cons, hraw, List.map_cons]⟩
    rw [List.mapM_cons, hread, hplaced]
    rfl

theorem mapM_operand_pieces_bare {pieces : List Piece} {operands : List Operand}
    (hp : pieces.map Piece.text = operands.map fun o => o.text.toList)
    (h : ∀ l, .memory l ∈ operands → l.address.WellFormed) (hb : ∃ l, .memory l ∈ operands ∧ l.address.IsBareIndex) :
    ∃ e, pieces.mapM Piece.operand = .error e ∧ ∃ l column, .memory l ∈ operands ∧ l.address.IsBareIndex ∧
      e = ⟨.noBase l.text.toList, l.text.toList, column⟩ := by
  refine mapM_eq_error (fun p hmem e he => ?_) ?_
  · obtain ⟨o, ho, htext⟩ : ∃ o ∈ operands, o.text.toList = p.text := by
      have hmem' := List.mem_map_of_mem (f := Piece.text) hmem
      rw [hp] at hmem'
      exact List.mem_map.1 hmem'
    by_cases hbare : ∃ l, o = .memory l ∧ l.address.IsBareIndex
    · obtain ⟨l, rfl, hl⟩ := hbare
      refine ⟨l, p.column, ho, hl, ?_⟩
      rw [Piece.operand, ← htext, Operand.text, readOperand_bare (h l ho) hl] at he
      cases he
      rfl
    · have hread := readOperand_text (o := o) fun l hl => ⟨h l (hl ▸ ho), fun hb => hbare ⟨l, hl, hb⟩⟩
      rw [Piece.operand, ← htext, hread] at he
      cases he
  · obtain ⟨l, hl, hbare⟩ := hb
    obtain ⟨p, hmem, htext⟩ : ∃ p ∈ pieces, p.text = l.text.toList := by
      have hmem := List.mem_map_of_mem (f := fun o => o.text.toList) hl
      rw [← hp] at hmem
      exact List.mem_map.1 hmem
    exact ⟨p, hmem, _, by rw [Piece.operand, htext, readOperand_bare (h l hl) hbare]⟩

/-- The instructions that are read back are those without a scaled index on its own.  For any other, the error is about
an address of this kind. -/
theorem parse_text {text : List Char} {i : Instruction} (h : parse text = .ok i) :
    (parse i.text.toList = .ok i ↔ ∀ l, .memory l ∈ i.operands → ¬l.address.IsBareIndex) ∧
      ((∃ l, .memory l ∈ i.operands ∧ l.address.IsBareIndex) → ∃ l column, .memory l ∈ i.operands ∧
        l.address.IsBareIndex ∧ parse i.text.toList = .error ⟨.noBase l.text.toList, l.text.toList, column⟩) := by
  have hw := parse_wellFormed h
  obtain ⟨pieces, htexts, hparse⟩ := exists_pieces i
  have hbare : (∃ l, .memory l ∈ i.operands ∧ l.address.IsBareIndex) → ∃ l column, .memory l ∈ i.operands ∧
      l.address.IsBareIndex ∧ parse i.text.toList = .error ⟨.noBase l.text.toList, l.text.toList, column⟩ := by
    intro hb
    obtain ⟨e, he, l, column, hl, hlb, rfl⟩ := mapM_operand_pieces_bare htexts hw.address hb
    refine ⟨l, column, hl, hlb, ?_⟩
    rw [hparse, he]
    rfl
  refine ⟨⟨fun hok l hl hb => ?_, fun hb => ?_⟩, hbare⟩
  · obtain ⟨l', column, -, -, herror⟩ := hbare ⟨l, hl, hb⟩
    rw [hok] at herror
    cases herror
  · obtain ⟨placed, hplaced, hraw⟩ := mapM_operand_pieces htexts fun l hl => ⟨hw.address l hl, hb l hl⟩
    have hlength : placed.length = i.operands.length := by simpa using congrArg List.length hraw
    have hcount : i.mnemonic.operandCounts.contains placed.length = true := by
      simpa [hlength] using hw.count
    rw [hparse, hplaced]
    refine bind_eq_ok.2 ⟨placed, rfl, ?_⟩
    simp only [hcount, resolveWidths_raw hw hraw]
    rfl

theorem parse_text_swapped_index : ∃ i, parse "ADD word ptr [8 + R9 + rsp], -1 ; both".toList = .ok i ∧
    parse i.text.toList = .ok i := by
  have h : parse "ADD word ptr [8 + R9 + rsp], -1 ; both".toList =
      .ok ⟨.add, [.memory ⟨⟨some .rsp, some .r9, .one, 8⟩, .word⟩, .immediate (-1) 16]⟩ := rfl
  refine ⟨_, h, (parse_text h).1.2 fun l hl hb => ?_⟩
  obtain rfl : l = ⟨⟨some .rsp, some .r9, .one, 8⟩, .word⟩ := by simpa using hl
  exact absurd hb (by decide)

/-- `mov rax, [rcx*2+0]` is an instruction, and `mov rax, qword ptr [rcx*2]`, as it is written, is none. -/
theorem not_parse_text_bare_index : ∃ i, parse "mov rax, [rcx*2+0]".toList = .ok i ∧
    i.text = "mov rax, qword ptr [rcx*2]" ∧ parse i.text.toList =
      .error ⟨.noBase "qword ptr [rcx*2]".toList, "qword ptr [rcx*2]".toList, 9⟩ :=
  ⟨⟨.mov, [.register (.low .rax .qword), .memory ⟨⟨none, some .rcx, .two, 0⟩, .qword⟩]⟩, rfl, by decide, rfl⟩

end Assembly

end LongMode

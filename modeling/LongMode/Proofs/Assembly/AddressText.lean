import LongMode.Assembly.Comment
import LongMode.Proofs.Assembly.AddressTerm
import LongMode.Proofs.Assembly.Pieces
import LongMode.Proofs.Assembly.Shape
import LongMode.Proofs.Register.Name

/-!
# Addresses read back

What `Address.text` writes is a sum of at most three parts, and reading it adds the same parts up.

* `sumTerms?_sumText`: the terms of a sum are those that it was written from.
* `AddressPart.isSpelled_term`: a part is written as a term with its meaning, so it is read back (`part_term`).
* `readAddress_text`: reading the text of an address is adding up `Address.parts`.
* `addressOfParts_parts` and `addressOfParts_bare`: a well-formed address is the sum of its parts, unless it has an
  index without a base and its displacement is zero.  The text of such an address is refused.
-/

namespace LongMode

/-- A scaled index and nothing else. -/
def Address.IsBareIndex (a : Address) : Prop := a.base = none ∧ a.index ≠ none ∧ a.displacement = 0

instance (a : Address) : Decidable a.IsBareIndex := inferInstanceAs (Decidable (_ ∧ _ ∧ _))

namespace Assembly

/-- The characters of names, numerals and sums. -/
def sumCharacters : List Char := Text.wordCharacters ++ ['*', '+', '-']

theorem of_mem_sumCharacters : ∀ c ∈ sumCharacters,
    Text.isBlank c = false ∧ isDelimiter c = false ∧ startsComment c = false :=
  Text.forall_mem_of_all (by decide)

theorem mem_sumCharacters {c : Char} (h : c ∈ Text.wordCharacters) : c ∈ sumCharacters :=
  List.mem_append_left _ h

/-! ### Sums -/

/-- A term with its sign. -/
def SumTerm.text (t : SumTerm) : List Char := (if t.negative then '-' else '+') :: t.body

/-- Terms in a row; the first has a sign only if it is negative. -/
def sumText : List SumTerm → List Char
  | [] => []
  | t :: rest => (if t.negative then ['-'] else []) ++ t.body ++ rest.flatMap SumTerm.text

theorem cutAtSigns_append {s : List Char} (h : ∀ c ∈ s, isSign c = false) (r : List Char) :
    cutAtSigns (s ++ r) = (s ++ (cutAtSigns r).1, (cutAtSigns r).2) := by
  induction s with
  | nil => rfl
  | cons c s ih =>
    have hc := h c List.mem_cons_self
    have hs := ih fun c hc => h c (List.mem_cons_of_mem _ hc)
    simp [cutAtSigns, hs, hc]

theorem cutAtSigns_terms {terms : List SumTerm} (h : ∀ t ∈ terms, ∀ c ∈ t.body, isSign c = false) :
    cutAtSigns (terms.flatMap SumTerm.text) = ([], terms) := by
  induction terms with
  | nil => rfl
  | cons t rest ih =>
    have ht := cutAtSigns_append (h t List.mem_cons_self) (rest.flatMap SumTerm.text)
    rw [ih fun t ht => h t (List.mem_cons_of_mem _ ht), List.append_nil] at ht
    obtain ⟨negative, body⟩ := t
    cases negative <;> simp [SumTerm.text, cutAtSigns, ht, isSign]

theorem sumTerms?_flatMap {terms : List SumTerm} (hne : terms ≠ [])
    (h : ∀ t ∈ terms, t.body ≠ [] ∧ ∀ c ∈ t.body, isSign c = false) :
    sumTerms? (terms.flatMap SumTerm.text) = some terms := by
  have hcut := cutAtSigns_terms fun t ht => (h t ht).2
  have hbodies : terms.any (fun t => t.body.isEmpty) = false := by
    rw [List.any_eq_false]
    intro t ht
    simpa using (h t ht).1
  simp [sumTerms?, hcut, hne, hbodies]

theorem sumTerms?_sumText {terms : List SumTerm} (hne : terms ≠ [])
    (h : ∀ t ∈ terms, t.body ≠ [] ∧ ∀ c ∈ t.body, isSign c = false) : sumTerms? (sumText terms) = some terms := by
  cases terms with
  | nil => exact absurd rfl hne
  | cons t rest =>
    obtain ⟨negative, body⟩ := t
    cases negative with
    | false =>
      -- the text before the first sign is the first term
      have hbody := h ⟨false, body⟩ List.mem_cons_self
      have hcut := cutAtSigns_append hbody.2 (rest.flatMap SumTerm.text)
      rw [cutAtSigns_terms fun t ht => (h t (List.mem_cons_of_mem _ ht)).2, List.append_nil] at hcut
      have hbodies : (⟨false, body⟩ :: rest : List SumTerm).any (fun t => t.body.isEmpty) = false := by
        rw [List.any_eq_false]
        intro t ht
        simpa using (h t ht).1
      simp only [sumTerms?, sumText, Bool.false_eq_true, if_false, List.nil_append, hcut, if_neg hbody.1]
      simp [hbodies]
    | true =>
      have htext : sumText (⟨true, body⟩ :: rest) = (⟨true, body⟩ :: rest : List SumTerm).flatMap SumTerm.text := by
        simp [sumText, SumTerm.text]
      rw [htext, sumTerms?_flatMap hne h]

/-! ### Parts -/

/-- The term that a part is written as. -/
def AddressPart.term : AddressPart → SumTerm
  | constant z => ⟨decide (z < 0), (Text.hex z.natAbs).toList⟩
  | plain c => ⟨false, c.name.toList⟩
  | scaled c s => ⟨false, (c.name ++ "*" ++ toString s.factor).toList⟩

theorem factor_characters (s : Scale) : ∀ c ∈ Nat.toDigits 10 s.factor, c ∈ Text.wordCharacters := by
  cases s <;> exact Text.forall_mem_of_all (by decide)

private theorem scaled_body (c : Cell) (s : Scale) :
    (AddressPart.scaled c s).term.body = c.name.toList ++ '*' :: Nat.toDigits 10 s.factor := by
  simp [AddressPart.term]

/-- A term is a word, or two words with a star between them. -/
theorem term_body (p : AddressPart) : ∀ c ∈ p.term.body, c ∈ '*' :: Text.wordCharacters := by
  cases p with
  | plain c => exact fun x hx => List.mem_cons_of_mem _ (c.name_characters.2 x hx)
  | scaled c s =>
    rw [scaled_body]
    intro x hx
    rcases List.mem_append.1 hx with hx | hx
    · exact List.mem_cons_of_mem _ (c.name_characters.2 x hx)
    · rcases List.mem_cons.1 hx with rfl | hx
      · exact List.mem_cons_self
      · exact List.mem_cons_of_mem _ (factor_characters s x hx)
  | constant z => exact fun c hc => List.mem_cons_of_mem _ (Text.mem_hex c hc)

theorem AddressPart.isSpelled_term (p : AddressPart) : p.meaning.IsSpelled p.term := by
  have hname (c : Cell) : Text.spells c.name.toList c.name = true := by cases c <;> rfl
  cases p with
  | plain c => exact .plain (hname c)
  | scaled c s =>
    have hfactor : Text.unsigned? (Nat.toDigits 10 s.factor) = some s.factor := by cases s <;> rfl
    have hproduct := AddressTerm.IsSpelled.registerFirst hfactor (hname c)
    rwa [← scaled_body] at hproduct
  | constant z =>
    have hconstant := AddressTerm.IsSpelled.constant (Text.unsigned?_hex z.natAbs) (decide (z < 0))
    have hz : (if decide (z < 0) = true then -(z.natAbs : Int) else z.natAbs) = z := by
      simp only [decide_eq_true_eq]
      split <;> omega
    rwa [hz] at hconstant

theorem part_term (p : AddressPart) : p.term.part = .ok p := p.isSpelled_term.part_eq_ok.2 rfl

theorem sumText_characters (parts : List AddressPart) :
    ∀ c ∈ sumText (parts.map AddressPart.term), c ∈ sumCharacters := by
  have hbody : ∀ p : AddressPart, ∀ c ∈ p.term.body, c ∈ sumCharacters := by
    intro p c hc
    rcases List.mem_cons.1 (term_body p c hc) with rfl | hc
    · decide
    · exact mem_sumCharacters hc
  have hterm : ∀ p : AddressPart, ∀ c ∈ p.term.text, c ∈ sumCharacters := by
    intro p c hc
    rcases List.mem_cons.1 hc with rfl | hc
    · cases p.term.negative <;> decide
    · exact hbody p c hc
  cases parts with
  | nil => simp [sumText]
  | cons p rest =>
    intro c hc
    rw [List.map_cons, sumText, List.mem_append, List.mem_append, List.mem_flatMap] at hc
    obtain (hc | hc) | ⟨t, ht, hc⟩ := hc
    · cases hn : p.term.negative <;> simp [hn] at hc
      subst hc
      decide
    · exact hbody p c hc
    · obtain ⟨q, -, rfl⟩ := List.mem_map.1 ht
      exact hterm q c hc

end Assembly

/-! ### Addresses -/

/-- The parts that an address is written as. -/
def Address.parts (a : Address) : List Assembly.AddressPart :=
  (a.base.map .plain).toList ++ (a.index.map (.scaled · a.scale)).toList ++
    if a.displacement = 0 ∧ ¬(a.base = none ∧ a.index = none) then [] else [.constant a.displacement]

namespace Assembly

theorem toList_text (a : Address) : a.text.toList = sumText (a.parts.map AddressPart.term) := by
  obtain ⟨base, index, scale, z⟩ := a
  have hsign : (Text.signedHex z).toList = (if z < 0 then ['-'] else []) ++ (Text.hex z.natAbs).toList :=
    Text.toList_signedHex z
  -- a displacement is written with its sign, and zero only if it stands alone
  rcases Int.lt_trichotomy z 0 with hz | rfl | hz
  · have hne : z ≠ 0 := by omega
    cases base <;> cases index <;>
      simp [Address.text, Address.registerTerms, Address.parts, AddressPart.term, sumText, SumTerm.text, hsign, hz, hne]
  · cases base <;> cases index <;>
      simp [Address.text, Address.registerTerms, Address.parts, AddressPart.term, sumText, SumTerm.text, hsign]
  · have hne : z ≠ 0 := by omega
    have hlt : ¬z < 0 := by omega
    cases base <;> cases index <;>
      simp [Address.text, Address.registerTerms, Address.parts, AddressPart.term, sumText, SumTerm.text, hsign, hlt,
        hne]

theorem parts_ne_nil (a : Address) : a.parts ≠ [] := by
  obtain ⟨base, index, scale, z⟩ := a
  cases base <;> cases index <;> simp [Address.parts]

theorem readAddress_text (operand : List Char) (a : Address) :
    readAddress operand a.text.toList = addressOfParts operand a.parts := by
  have hblank : Text.withoutBlanks (sumText (a.parts.map AddressPart.term)) = sumText (a.parts.map AddressPart.term) :=
    Text.withoutBlanks_eq_self fun c hc => (of_mem_sumCharacters c (sumText_characters _ c hc)).1
  have hterms : sumTerms? (sumText (a.parts.map AddressPart.term)) = some (a.parts.map AddressPart.term) := by
    refine sumTerms?_sumText (by simpa using parts_ne_nil a) fun t ht => ?_
    obtain ⟨p, -, rfl⟩ := List.mem_map.1 ht
    exact p.isSpelled_term.body_characters
  have hparts : (a.parts.map AddressPart.term).mapM SumTerm.part = .ok a.parts := by
    rw [mapM_eq_ok, List.map_map]
    exact List.map_congr_left fun p _ => part_term p
  rw [readAddress, toList_text, hblank, hterms]
  simp only [hparts]
  rfl

variable {a : Address}

theorem plainRegisters_parts (a : Address) : plainRegisters a.parts = a.base.toList := by
  obtain ⟨base, index, scale, z⟩ := a
  cases base <;> cases index <;> simp [Address.parts, plainRegisters]

theorem scaledRegisters_parts (a : Address) : scaledRegisters a.parts = (a.index.map fun c => (c, a.scale)).toList := by
  obtain ⟨base, index, scale, z⟩ := a
  cases base <;> cases index <;> simp [Address.parts, scaledRegisters]

theorem constants_parts (a : Address) : constants a.parts =
    if a.displacement = 0 ∧ ¬(a.base = none ∧ a.index = none) then [] else [a.displacement] := by
  obtain ⟨base, index, scale, z⟩ := a
  cases base <;> cases index <;> simp [Address.parts, constants] <;> split <;> rfl

theorem sum_constants_parts (a : Address) : (constants a.parts).sum = a.displacement := by
  rw [constants_parts]
  split
  · rename_i h
    exact h.1.symm
  · simp

theorem addressOfParts_parts (operand : List Char) (h : a.WellFormed) (hb : ¬a.IsBareIndex) :
    addressOfParts operand a.parts = .ok a := by
  -- a base stays the base, and an index without one is scaled, so neither is taken for the other
  have hbi : baseAndIndex a.base.toList (a.index.map fun c => (c, a.scale)).toList = (a.base, a.index, a.scale) := by
    obtain ⟨base, index, scale, z⟩ := a
    have hs := h.scale_eq
    have hs' := h.scale_ne
    cases base with
    | some b =>
      cases index with
      | some c => rfl
      | none => rw [show scale = .one from hs rfl]; rfl
    | none =>
      cases index with
      | none => rw [show scale = .one from hs rfl]; rfl
      | some c =>
        cases scale with
        -- an index with factor one would have been read as a base
        | one => exact absurd rfl (hs' rfl (by simp))
        | two | four | eight => rfl
  have hcount : (scaledRegisters a.parts).length ≤ 1 ∧
      (plainRegisters a.parts).length + (scaledRegisters a.parts).length ≤ 2 := by
    rw [plainRegisters_parts, scaledRegisters_parts]
    cases a.base <;> cases a.index <;> simp
  have hanchored : a.base = none → constants a.parts ≠ [] := by
    intro hbase hc
    rw [constants_parts] at hc
    split at hc
    · rename_i hz
      exact hb ⟨hbase, fun hi => hz.2 ⟨hbase, hi⟩, hz.1⟩
    · cases hc
  rw [← plainRegisters_parts, ← scaledRegisters_parts] at hbi
  refine (addressOfParts_eq_ok hbi).2 ⟨hcount, hanchored, fun hi => absurd hi h.index_ne, ?_⟩
  rw [if_neg h.index_ne, sum_constants_parts]

theorem addressOfParts_bare (operand : List Char) (h : a.WellFormed) (hb : a.IsBareIndex) :
    addressOfParts operand a.parts = .error ⟨.noBase operand, operand⟩ := by
  obtain ⟨base, index, scale, z⟩ := a
  obtain ⟨rfl, hi, rfl⟩ := hb
  obtain ⟨c, rfl⟩ := Option.ne_none_iff_exists'.1 hi
  have hs : scale ≠ .one := h.scale_ne rfl hi
  cases scale with
  | one => exact absurd rfl hs
  | two | four | eight => rfl

end Assembly

end LongMode

import LongMode.Proofs.Text.Blank
import LongMode.Proofs.Text.Letter
import LongMode.Proofs.Untyped.Reading

/-!
# The reader needs no types

On every text the untyped reader does what the library does: it reads the untyped form of the same instruction, or finds
the same error.  What each step takes for granted is shown where it is established.

* `numeral_eq`: a text with the pattern of numerals is converted.
* `readPiece_erase`: an operand has a first word, since it is not blank.
* `leadingKeyword_eq`: the keyword of a memory operand is in the table.
* `parse_erase`: reading an instruction.
-/

namespace LongMode.Untyped

open LongMode.Assembly (Piece SumTerm prepend)

variable {ε α β γ δ : Type}

/-- A list of computations, each of which does what one of the library does. -/
theorem mapM_erased {f : α → Except ε β} {g : γ → Partial ε δ} {e : α → γ} {h : β → δ} {l : List α}
    (hfg : ∀ a ∈ l, g (e a) = settled ((f a).map h)) :
    (l.map e).mapM g = settled ((l.mapM f).map (List.map h)) := by
  induction l with
  | nil => rfl
  | cons a rest ih =>
    rw [List.map_cons, List.mapM_cons, List.mapM_cons, hfg a List.mem_cons_self,
      ih fun a ha => hfg a (List.mem_cons_of_mem _ ha)]
    cases f a with
    | error e => rfl
    | ok b => cases rest.mapM f <;> rfl

theorem mapM_settled {f : α → Except ε β} {g : α → Partial ε δ} {h : β → δ} {l : List α}
    (hfg : ∀ a ∈ l, g a = settled ((f a).map h)) : l.mapM g = settled ((l.mapM f).map (List.map h)) := by
  have herased := mapM_erased (e := id) (f := f) (g := g) hfg
  rwa [List.map_id] at herased

/-! ### Numerals -/

private theorem digit_of_isSome {radix : Nat} {c : Char} (h : (Text.digit? radix c).isSome = true) :
    ∃ d, Text.digit? radix c = some d ∧ (digit radix c : Partial ε Nat) = .ok d := by
  obtain ⟨d, hd⟩ := Option.isSome_iff_exists.1 h
  exact ⟨d, hd, by rw [digit, hd]⟩

private theorem continueDigits_eq {radix : Nat} {s : List Char}
    (h : s.all (fun c => (Text.digit? radix c).isSome) = true) (n : Nat) :
    ∃ k, Text.continueNatural? radix n s = some k ∧ (continueDigits radix n s : Partial ε Nat) = .ok k := by
  induction s generalizing n with
  | nil => exact ⟨n, rfl, rfl⟩
  | cons c rest ih =>
    rw [List.all_cons, Bool.and_eq_true] at h
    obtain ⟨d, hd, hdigit⟩ := digit_of_isSome (ε := ε) h.1
    obtain ⟨k, hk, hcontinue⟩ := ih h.2 (n * radix + d)
    refine ⟨k, ?_, ?_⟩
    · rw [Text.continueNatural?, hd]
      exact hk
    · rw [continueDigits, hdigit]
      exact hcontinue

private theorem continueNatural?_eq_none {radix : Nat} {s : List Char}
    (h : s.all (fun c => (Text.digit? radix c).isSome) = false) (n : Nat) :
    Text.continueNatural? radix n s = none := by
  induction s generalizing n with
  | nil => cases h
  | cons c rest ih =>
    rw [List.all_cons] at h
    rw [Text.continueNatural?]
    cases hd : Text.digit? radix c with
    | none => rfl
    | some d =>
      rw [hd] at h
      exact ih h _

/-- What the pattern of digits says about their conversion. -/
private theorem natural?_eq (radix : Nat) (s : List Char) :
    (isDigits radix s = false ∧ Text.natural? radix s = none) ∨
      (isDigits radix s = true ∧ ∃ k, Text.natural? radix s = some k ∧ (digits radix s : Partial ε Nat) = .ok k) := by
  cases s with
  | nil => exact .inl ⟨rfl, rfl⟩
  | cons c rest =>
    cases hall : (c :: rest).all fun c => (Text.digit? radix c).isSome with
    | false => exact .inl ⟨hall, continueNatural?_eq_none hall 0⟩
    | true =>
      obtain ⟨k, hk, hdigits⟩ := continueDigits_eq (ε := ε) hall 0
      exact .inr ⟨hall, k, hk, (if_neg (List.cons_ne_nil _ _)).trans hdigits⟩

private theorem digit?_toUpper (radix : Nat) (c : Char) : Text.digit? radix c.toUpper = Text.digit? radix c := by
  have hall : ∀ n < 26, Text.digitValue? (Char.ofNat (65 + n)) = Text.digitValue? (Char.ofNat (97 + n)) := by decide
  obtain h | ⟨n, hn, rfl, h⟩ := Text.toUpper_cases c
  · rw [h]
  · rw [h, Text.digit?, Text.digit?, hall n hn]

private theorem isDigits_toUpper (radix : Nat) (s : List Char) :
    isDigits radix (s.map Char.toUpper) = isDigits radix s := by
  simp [isDigits, List.all_map, Function.comp_def, digit?_toUpper]

private theorem natural?_toUpper (radix : Nat) (s : List Char) :
    Text.natural? radix (s.map Char.toUpper) = Text.natural? radix s := by
  have hcontinue (n : Nat) : Text.continueNatural? radix n (s.map Char.toUpper) = Text.continueNatural? radix n s := by
    induction s generalizing n with
    | nil => rfl
    | cons c rest ih => simp only [List.map_cons, Text.continueNatural?, digit?_toUpper, ih]
  cases s with
  | nil => rfl
  | cons c rest => exact hcontinue 0

/-- Small letters convert like capital letters. -/
private theorem digits_toUpper {radix : Nat} {s : List Char} {k : Nat} (h : isDigits radix s = true)
    (hk : Text.natural? radix s = some k) : (digits radix (s.map Char.toUpper) : Partial ε Nat) = .ok k := by
  rw [← isDigits_toUpper] at h
  rw [← natural?_toUpper] at hk
  obtain ⟨hfalse, -⟩ | ⟨-, n, hn, hdigits⟩ := natural?_eq (ε := ε) radix (s.map Char.toUpper)
  · rw [h] at hfalse
    cases hfalse
  · rw [hdigits]
    exact congrArg Except.ok (Option.some.inj (hn.symm.trans hk))

/-- Decimal digits are not taken for a numeral of another radix. -/
private theorem unsigned_decimal {s : List Char} (h : isDigits 10 s = true) :
    (unsigned s : Partial ε Nat) = digits 10 s := by
  unfold unsigned
  split
  · simp [isDigits, show Text.digit? 10 'X' = none from rfl] at h
  · simp [isDigits, show Text.digit? 10 'B' = none from rfl] at h
  · rfl

/-- A numeral is converted when the digits after its marker are. -/
private theorem unsigned_of {s digits' : List Char} {radix : Nat} (hpattern : isUnsigned s = isDigits radix digits')
    (hvalue : Text.unsigned? s = Text.natural? radix digits')
    (hconvert : isDigits radix digits' = true →
      (unsigned (s.map Char.toUpper) : Partial ε Nat) = digits radix (digits'.map Char.toUpper)) :
    (isUnsigned s = false ∧ Text.unsigned? s = none) ∨
      (isUnsigned s = true ∧ ∃ k, Text.unsigned? s = some k ∧
        (unsigned (s.map Char.toUpper) : Partial ε Nat) = .ok k) := by
  rw [hpattern, hvalue]
  obtain h | ⟨h, k, hk, -⟩ := natural?_eq (ε := ε) radix digits'
  · exact .inl h
  · exact .inr ⟨h, k, hk, (hconvert h).trans (digits_toUpper h hk)⟩

private theorem unsigned_eq (s : List Char) :
    (isUnsigned s = false ∧ Text.unsigned? s = none) ∨
      (isUnsigned s = true ∧ ∃ k, Text.unsigned? s = some k ∧
        (unsigned (s.map Char.toUpper) : Partial ε Nat) = .ok k) := by
  fun_cases isUnsigned s with
  | case1 r => exact unsigned_of (s := '0' :: 'x' :: r) rfl rfl fun _ => rfl
  | case2 r => exact unsigned_of (s := '0' :: 'X' :: r) rfl rfl fun _ => rfl
  | case3 r => exact unsigned_of (s := '0' :: 'b' :: r) rfl rfl fun _ => rfl
  | case4 r => exact unsigned_of (s := '0' :: 'B' :: r) rfl rfl fun _ => rfl
  | case5 =>
    have hpattern : isUnsigned s = isDigits 10 s := by simp only [isUnsigned]
    have hvalue : Text.unsigned? s = Text.natural? 10 s := by simp only [Text.unsigned?]
    rw [← hpattern]
    exact unsigned_of hpattern hvalue fun h => unsigned_decimal ((isDigits_toUpper 10 s).trans h)

private theorem toUpper_eq_sign {c d : Char} (hd : Assembly.isSign d = true) (h : c.toUpper = d) : c = d := by
  have hletters : ∀ n < 26, Assembly.isSign (Char.ofNat (65 + n)) = false := by decide
  obtain hsame | ⟨n, hn, -, hupper⟩ := Text.toUpper_cases c
  · exact hsame.symm.trans h
  · rw [← h, hupper, hletters n hn] at hd
    cases hd

/-- A numeral is converted when what follows its sign is. -/
private theorem numeral_of {s body : List Char} {f : Nat → Int} (hpattern : isNumeral s = isUnsigned body)
    (hvalue : Text.integer? s = (Text.unsigned? body).map f)
    (hconvert : (numeral s : Partial ε Int) = do return f (← unsigned (body.map Char.toUpper))) :
    (isNumeral s = false ∧ Text.integer? s = none) ∨
      (isNumeral s = true ∧ ∃ z, Text.integer? s = some z ∧ (numeral s : Partial ε Int) = .ok z) := by
  rw [hpattern, hvalue, hconvert]
  obtain ⟨h, hnone⟩ | ⟨h, k, hk, hunsigned⟩ := unsigned_eq (ε := ε) body
  · exact .inl ⟨h, congrArg (Option.map f) hnone⟩
  · exact .inr ⟨h, f k, congrArg (Option.map f) hk, by rw [hunsigned]; rfl⟩

/-- Either a text does not have the pattern of numerals and is none, or it is converted. -/
theorem numeral_eq (s : List Char) :
    (isNumeral s = false ∧ Text.integer? s = none) ∨
      (isNumeral s = true ∧ ∃ z, Text.integer? s = some z ∧ (numeral s : Partial ε Int) = .ok z) := by
  fun_cases isNumeral s with
  | case1 r =>
    have hvalue : Text.integer? ('+' :: r) = (Text.unsigned? r).map fun n : Nat => (n : Int) := by
      cases h : Text.unsigned? r <;> simp [Text.integer?, h]
    exact numeral_of (s := '+' :: r) rfl hvalue rfl
  | case2 r =>
    have hvalue : Text.integer? ('-' :: r) = (Text.unsigned? r).map fun n : Nat => -(n : Int) := by
      cases h : Text.unsigned? r <;> simp [Text.integer?, h]
    exact numeral_of (s := '-' :: r) rfl hvalue rfl
  | case3 _ hplus hminus =>
    have hpattern : isNumeral s = isUnsigned s := by simp only [isNumeral]
    have hvalue : Text.integer? s = (Text.unsigned? s).map fun n : Nat => (n : Int) := by
      simp only [Text.integer?]
      cases Text.unsigned? s <;> rfl
    have hsign {d : Char} {t : List Char} (hd : Assembly.isSign d = true) (h : s.map Char.toUpper = d :: t) :
        ∃ r, s = d :: r := by
      obtain ⟨c, r, rfl, hc, -⟩ := List.map_eq_cons_iff.1 h
      exact ⟨r, by rw [toUpper_eq_sign hd hc]⟩
    rw [← hpattern]
    refine numeral_of hpattern hvalue ?_
    unfold numeral
    split
    · rename_i h
      obtain ⟨r, hr⟩ := hsign rfl h
      exact absurd hr (hplus r)
    · rename_i h
      obtain ⟨r, hr⟩ := hsign rfl h
      exact absurd hr (hminus r)
    · rfl

/-- A text without signs is a numeral when it is one without a sign. -/
private theorem factor_eq {s : List Char} (h : ∀ c ∈ s, Assembly.isSign c = false) :
    (isNumeral s = false ∧ Text.unsigned? s = none) ∨
      (isNumeral s = true ∧ ∃ n : Nat, Text.unsigned? s = some n ∧ (numeral s : Partial ε Int) = .ok (n : Int)) := by
  have hunsigned : Text.integer? s = (Text.unsigned? s).map fun n : Nat => (n : Int) := by
    unfold Text.integer?
    split
    · exact absurd (h _ List.mem_cons_self) (by decide)
    · exact absurd (h _ List.mem_cons_self) (by decide)
    · cases Text.unsigned? s <;> rfl
  obtain ⟨hs, hnone⟩ | ⟨hs, z, hz, hnumeral⟩ := numeral_eq (ε := ε) s
  · exact .inl ⟨hs, Option.map_eq_none_iff.1 (hunsigned.symm.trans hnone)⟩
  · obtain ⟨n, hn, rfl⟩ := Option.map_eq_some_iff.1 (hunsigned.symm.trans hz)
    exact .inr ⟨hs, n, hn, hnumeral⟩

/-! ### Words and pieces -/

private theorem words_cons {c : Char} (hc : Text.isBlank c = false) (r : List Char) :
    ∃ rest, words (c :: r) = Text.firstWord (c :: r) :: rest := by
  induction r generalizing c with
  | nil => exact ⟨[], by simp [words, Text.firstWord, hc]⟩
  | cons d r ih =>
    cases hd : Text.isBlank d with
    | true => exact ⟨words (d :: r), by rw [words]; simp [Text.firstWord, hc, hd]⟩
    | false =>
      obtain ⟨rest, hrest⟩ := ih hd
      exact ⟨rest, by rw [words, hrest]; simp [Text.firstWord, hc, hd, prepend]⟩

/-- An operand does not start with white space, and is not empty. -/
private theorem text_of_mem_pieces {column : Nat} {s : List Char} {pieces : List Piece}
    (h : Assembly.splitOperands column s = .ok pieces) {p : Piece} (hp : p ∈ pieces) :
    ∃ c r, p.text = c :: r ∧ Text.isBlank c = false := by
  unfold Assembly.splitOperands at h
  split at h
  · cases h
    cases hp
  · split at h
    · cases h
    · dsimp only at h
      split at h
      · have hmem := List.mem_map_of_mem (f := (Except.ok : Piece → Except ParseError Piece)) hp
        rw [← mapM_eq_ok.1 h] at hmem
        obtain ⟨q, -, hq⟩ := List.mem_map.1 hmem
        unfold Piece.checked at hq
        split at hq
        · cases hq
        · rename_i hne
          cases hq
          exact Text.trim_eq_cons hne
      · cases h

/-! ### Products -/

private theorem splitAtStars_length (s : List Char) : (splitAtStars s).length = s.count '*' + 1 := by
  induction s with
  | nil => rfl
  | cons c r ih =>
    rw [splitAtStars]
    split
    · rename_i hc
      rw [hc, List.length_cons, ih, List.count_cons_self]
    · rename_i hc
      obtain ⟨p, rest, hp⟩ := List.exists_cons_of_length_pos (ih ▸ Nat.succ_pos _ : 0 < (splitAtStars r).length)
      rw [List.count_cons_of_ne (Ne.symm (Ne.symm hc)), ← ih, hp]
      rfl

private theorem splitAtStars_plain {s : List Char} (h : '*' ∉ s) : splitAtStars s = [s] := by
  induction s with
  | nil => rfl
  | cons c r ih =>
    obtain ⟨hc, hr⟩ := List.ne_and_not_mem_of_not_mem_cons h
    rw [splitAtStars, if_neg (Ne.symm hc), ih hr]
    rfl

private theorem splitAtStars_append {s : List Char} (h : '*' ∉ s) (r : List Char) :
    splitAtStars (s ++ '*' :: r) = s :: splitAtStars r := by
  induction s with
  | nil => rfl
  | cons c s ih =>
    obtain ⟨hc, hs⟩ := List.ne_and_not_mem_of_not_mem_cons h
    rw [List.cons_append, splitAtStars, if_neg (Ne.symm hc), ih hs]
    rfl

/-- A product with one star has the two factors that the library takes. -/
private theorem splitAtStars_of_one {s : List Char} (h : s.count '*' = 1) :
    splitAtStars s = [s.takeWhile fun c => c != '*', (s.dropWhile fun c => c != '*').drop 1] := by
  have hleft : '*' ∉ s.takeWhile fun c => c != '*' := fun hmem => by
    have hall := List.all_eq_true.1 (List.all_takeWhile (p := fun c => c != '*') (l := s)) _ hmem
    exact absurd rfl (bne_iff_ne.1 hall)
  have happend : (s.takeWhile fun c => c != '*') ++ s.dropWhile (fun c => c != '*') = s :=
    List.takeWhile_append_dropWhile
  have hcount := h
  rw [← happend, List.count_append, List.count_eq_zero.2 hleft] at hcount
  cases hdrop : s.dropWhile fun c => c != '*' with
  | nil =>
    rw [hdrop] at hcount
    cases hcount
  | cons c r =>
    have hc : c = '*' := by
      have hhead := List.head?_dropWhile_not (fun c => c != '*') s
      rw [hdrop] at hhead
      simpa using hhead
    subst hc
    rw [hdrop, List.count_cons_self] at hcount
    have hright : '*' ∉ r := List.count_eq_zero.1 (by omega)
    have hsplit := splitAtStars_append hleft r
    rw [← hdrop, happend, splitAtStars_plain hright] at hsplit
    exact hsplit

/-! ### Parts of an address -/

/-- The untyped form of a part of an address. -/
private def erasePart : Assembly.AddressPart → AddressPart
  | .constant z => .constant z
  | .plain c => .plain c.name
  | .scaled c s => .scaled c.name s.factor

private theorem addressRegister_erase (name : List Char) :
    addressRegister name = settled ((Assembly.addressRegister name).map Cell.name) := by
  unfold addressRegister Assembly.addressRegister
  split
  · cases View.ofName? name with
    | none => dsimp only; split <;> rfl
    | some v =>
      cases v with
      | high b => rfl
      | low c w => cases w <;> rfl
  · rfl

private theorem ofFactor?_eq (n : Nat) :
    (Scale.ofFactor? n = none ∧ scales.contains (n : Int) = false) ∨
      ∃ s : Scale, Scale.ofFactor? n = some s ∧ scales.contains (n : Int) = true ∧ n = s.factor := by
  have hcontains : scales.contains (n : Int) = true ↔ n = 1 ∨ n = 2 ∨ n = 4 ∨ n = 8 := by
    simp only [scales, List.contains_iff_mem, List.mem_cons, List.not_mem_nil, or_false]
    omega
  by_cases hn : n = 1 ∨ n = 2 ∨ n = 4 ∨ n = 8
  · right
    obtain rfl | rfl | rfl | rfl := hn
    · exact ⟨.one, rfl, rfl, rfl⟩
    · exact ⟨.two, rfl, rfl, rfl⟩
    · exact ⟨.four, rfl, rfl, rfl⟩
    · exact ⟨.eight, rfl, rfl, rfl⟩
  · refine .inl ⟨List.find?_eq_none.2 fun s _ heq => hn ?_, Bool.eq_false_iff.2 (mt hcontains.1 hn)⟩
    rw [← beq_iff_eq.1 heq]
    cases s <;> simp [Scale.factor]

private theorem scaledPart_erase {t : SumTerm} {factor : List Char} (register : List Char)
    (h : ∀ c ∈ factor, Assembly.isSign c = false) :
    scaledPart t factor register = settled ((match t.negative, Text.unsigned? factor with
      | false, some n =>
        match Scale.ofFactor? n with
        | some s => (Assembly.addressRegister register).map fun c => .scaled c s
        | none => .error ⟨.badScale n, factor⟩
      | _, _ => .error ⟨.malformedProduct t.body, t.body⟩ : Except Complaint Assembly.AddressPart).map erasePart) := by
  unfold scaledPart
  cases t.negative with
  | true => rfl
  | false =>
    obtain ⟨hfactor, hnone⟩ | ⟨hfactor, n, hn, hnumeral⟩ := factor_eq (ε := Complaint) h
    · rw [hfactor, hnone]
      rfl
    · rw [hfactor, hn, hnumeral]
      dsimp only
      obtain ⟨hnone, hcontains⟩ | ⟨s, hs, hcontains, rfl⟩ := ofFactor?_eq n
      · simp only [hnone, hcontains, ok_bind, Bool.false_or, Bool.not_true, Bool.false_eq_true, if_false]
        rfl
      · simp only [hs, hcontains, addressRegister_erase, ok_bind, Bool.false_or, Bool.not_true, Bool.false_eq_true,
          if_false, if_true]
        cases Assembly.addressRegister register <;> rfl

private theorem productPart_erase {t : SumTerm} (hcount : t.body.count '*' = 1)
    (h : ∀ c ∈ t.body, Assembly.isSign c = false) :
    productPart t = settled ((Assembly.productPart t).map erasePart) := by
  have hleft : ∀ c ∈ t.body.takeWhile (fun c => c != '*'), Assembly.isSign c = false := fun c hc =>
    h c ((List.takeWhile_sublist _).subset hc)
  have hright : ∀ c ∈ (t.body.dropWhile fun c => c != '*').drop 1, Assembly.isSign c = false := fun c hc =>
    h c ((List.dropWhile_sublist _).subset (List.mem_of_mem_drop hc))
  unfold productPart Assembly.productPart
  rw [splitAtStars_of_one hcount]
  dsimp only
  generalize t.body.takeWhile (fun c => c != '*') = left at hleft
  generalize (t.body.dropWhile fun c => c != '*').drop 1 = right at hright
  show (if isNumeral left then scaledPart t left right else scaledPart t right left) = _
  obtain ⟨hl, hnone⟩ | ⟨hl, n, hn, -⟩ := factor_eq (ε := Complaint) hleft
  · have hname : ¬ (Text.unsigned? left).isSome = true := by simp [hnone]
    rw [hl, if_neg hname]
    exact scaledPart_erase left hright
  · have hfactor : (Text.unsigned? left).isSome = true := by simp [hn]
    rw [hl, if_pos hfactor]
    exact scaledPart_erase right hleft

private theorem simplePart_erase {t : SumTerm} (h : ∀ c ∈ t.body, Assembly.isSign c = false) :
    simplePart t = settled ((Assembly.simplePart t).map erasePart) := by
  unfold simplePart Assembly.simplePart
  obtain ⟨hbody, hnone⟩ | ⟨hbody, n, hn, hnumeral⟩ := factor_eq (ε := Complaint) h
  · simp only [hbody, hnone, addressRegister_erase, Bool.false_eq_true, if_false]
    split
    · rfl
    · cases Assembly.addressRegister t.body <;> rfl
  · simp only [hbody, hn, hnumeral, if_true, ok_bind]
    rfl

private theorem addressPart_erase {t : SumTerm} (h : ∀ c ∈ t.body, Assembly.isSign c = false) :
    addressPart t = settled (t.part.map erasePart) := by
  have hcontains : t.body.contains '*' = true ↔ t.body.count '*' ≠ 0 := by
    rw [List.contains_iff_mem, ← List.count_pos_iff, Nat.pos_iff_ne_zero]
  unfold addressPart SumTerm.part
  match hcount : t.body.count '*' with
  | 0 =>
    rw [if_neg (mt hcontains.1 (not_not_intro hcount))]
    exact simplePart_erase h
  | 1 =>
    rw [if_pos (hcontains.2 (by omega))]
    exact productPart_erase hcount h
  | n + 2 =>
    have hlength : (splitAtStars t.body).length ≠ 2 := by
      rw [splitAtStars_length]
      omega
    rw [if_pos (hcontains.2 (by omega)), productPart, if_pos hlength]
    rfl

/-- The terms of a sum hold no signs. -/
private theorem sign_of_mem_sumTerms {s : List Char} {terms : List SumTerm} (h : Assembly.sumTerms? s = some terms) :
    ∀ t ∈ terms, ∀ c ∈ t.body, Assembly.isSign c = false := by
  have hcut : (∀ c ∈ (Assembly.cutAtSigns s).1, Assembly.isSign c = false) ∧
      ∀ t ∈ (Assembly.cutAtSigns s).2, ∀ c ∈ t.body, Assembly.isSign c = false := by
    clear h
    induction s with
    | nil => exact ⟨fun c hc => absurd hc List.not_mem_nil, fun t ht => absurd ht List.not_mem_nil⟩
    | cons c r ih =>
      rw [Assembly.cutAtSigns]
      cases hc : Assembly.isSign c with
      | true => exact ⟨fun d hd => absurd hd List.not_mem_nil, List.forall_mem_cons.2 ⟨ih.1, ih.2⟩⟩
      | false => exact ⟨List.forall_mem_cons.2 ⟨hc, ih.1⟩, ih.2⟩
  unfold Assembly.sumTerms? at h
  dsimp only at h
  split at h
  · split at h
    · cases h
    · cases h
      exact hcut.2
  · split at h
    · cases h
    · cases h
      exact List.forall_mem_cons.2 ⟨hcut.1, hcut.2⟩

/-! ### Memory operands -/

private theorem constants_erase (parts : List Assembly.AddressPart) :
    constants (parts.map erasePart) = Assembly.constants parts := by
  rw [constants, List.filterMap_map]
  refine congrArg (List.filterMap · parts) (funext fun p => ?_)
  cases p <;> rfl

private theorem plainRegisters_erase (parts : List Assembly.AddressPart) :
    plainRegisters (parts.map erasePart) = (Assembly.plainRegisters parts).map Cell.name := by
  rw [plainRegisters, Assembly.plainRegisters, List.filterMap_map, List.map_filterMap]
  refine congrArg (List.filterMap · parts) (funext fun p => ?_)
  cases p <;> rfl

private theorem scaledRegisters_erase (parts : List Assembly.AddressPart) :
    scaledRegisters (parts.map erasePart) =
      (Assembly.scaledRegisters parts).map fun (c, s) => (c.name, s.factor) := by
  rw [scaledRegisters, Assembly.scaledRegisters, List.filterMap_map, List.map_filterMap]
  refine congrArg (List.filterMap · parts) (funext fun p => ?_)
  cases p <;> rfl

private theorem first?_eq (l : List α) : (first? l : Partial ε (Option α)) = .ok l.head? := by
  cases l <;> rfl

private theorem second?_eq (l : List α) : (second? l : Partial ε (Option α)) = .ok l[1]? := by
  match l with
  | [] => rfl
  | [_] => rfl
  | _ :: b :: _ => rfl

private theorem baseAndIndex_erase (plain : List Cell) {scaled : List (Cell × Scale)} (h : scaled.length ≤ 1) :
    (baseAndIndex (plain.map Cell.name) (scaled.map fun (c, s) => (c.name, s.factor)) : Partial ε _) =
      .ok ((Assembly.baseAndIndex plain scaled).1.map Cell.name, (Assembly.baseAndIndex plain scaled).2.1.map Cell.name,
        (Assembly.baseAndIndex plain scaled).2.2.factor) := by
  unfold baseAndIndex
  rw [first?_eq, second?_eq]
  match plain, scaled, h with
  | [], [], _ => rfl
  | [_], [], _ => rfl
  | _ :: _ :: _, [], _ => rfl
  | [], [(c, s)], _ => cases s <;> rfl
  | _ :: _, [(c, s)], _ => cases s <;> rfl

/-- The untyped form of an operand before its width is known. -/
private def eraseRaw : Assembly.RawOperand → RawOperand
  | .register v => .register v.name v.bits
  | .vector x => .register x.name VectorRegister.bits
  | .immediate z => .immediate z
  | .memory a width => .memory (a.base.map Cell.name) (a.index.map Cell.name) a.scale.factor a.displacement
      (width.map Width.bits)

private theorem name_eq_rsp {o : Option Cell} : o.map Cell.name = some "rsp" ↔ o = some .rsp := by
  cases o with
  | none => simp
  | some c => cases c <;> decide

private theorem memoryOfParts_erase (operand : List Char) (width : Option Width) (parts : List Assembly.AddressPart) :
    memoryOfParts operand (width.map Width.bits) (parts.map erasePart) =
      settled (((Assembly.addressOfParts operand parts).map fun a => .memory a width).map eraseRaw) := by
  unfold memoryOfParts Assembly.addressOfParts
  rw [constants_erase, plainRegisters_erase, scaledRegisters_erase]
  simp only [List.length_map]
  split
  · rfl
  · rename_i hregisters
    rw [baseAndIndex_erase _ (by omega), ok_bind]
    generalize Assembly.baseAndIndex (Assembly.plainRegisters parts) (Assembly.scaledRegisters parts) = registers
    obtain ⟨base, index, scale⟩ := registers
    have hone : scale.factor = 1 ↔ scale = .one := by cases scale <;> decide
    simp only [Option.map_eq_none_iff, name_eq_rsp, hone, ne_eq]
    split
    · rfl
    · split
      · split <;> rfl
      · rfl

private theorem ofList_eq_of_spells {s : List Char} {name : String} (h : Text.spells s name = true) :
    String.ofList (Text.lower s) = name := by
  rw [eq_of_beq h, String.ofList_toList]

private theorem keywordWidth_eq {s : List Char} {w : Width} (h : Text.spells s w.keyword = true) :
    (keywordWidth s : Partial ε Nat) = .ok w.bits := by
  rw [keywordWidth, ofList_eq_of_spells h]
  cases w <;> rfl

/-- The first keyword that starts a text, looked for in the table and among the widths. -/
private theorem find?_keyword (s : List Char) (widths : List Width) :
    ((widths.map fun w => (w.keyword, w.bits)).find? (fun (word, _) => Text.spells (s.take word.length) word) = none ∧
      widths.findSome? (fun w => (Assembly.afterKeyword? w.keyword s).map fun r => (w, r)) = none) ∨
    ∃ w : Width, Text.spells (s.take w.keyword.length) w.keyword = true ∧
      (widths.map fun w => (w.keyword, w.bits)).find? (fun (word, _) => Text.spells (s.take word.length) word) =
        some (w.keyword, w.bits) ∧
      widths.findSome? (fun w => (Assembly.afterKeyword? w.keyword s).map fun r => (w, r)) =
        some (w, Text.trimLeft (s.drop w.keyword.length)) := by
  induction widths with
  | nil => exact .inl ⟨rfl, rfl⟩
  | cons w rest ih =>
    cases hw : Text.spells (s.take w.keyword.length) w.keyword with
    | true =>
      refine .inr ⟨w, hw, ?_, ?_⟩
      · rw [List.map_cons]
        exact List.find?_cons_of_pos hw
      · rw [List.findSome?_cons, Assembly.afterKeyword?, if_pos hw]
        rfl
    | false =>
      have hnone : Assembly.afterKeyword? w.keyword s = none := if_neg (by rw [hw]; exact Bool.false_ne_true)
      have hskip : ((w :: rest).map fun w => (w.keyword, w.bits)).find?
          (fun (word, _) => Text.spells (s.take word.length) word) =
          (rest.map fun w => (w.keyword, w.bits)).find? fun (word, _) => Text.spells (s.take word.length) word :=
        List.find?_cons_of_neg (by simp [hw])
      rw [hskip, List.findSome?_cons, hnone]
      exact ih

/-- The keyword of a memory operand is one of the table. -/
theorem leadingKeyword_eq (s : List Char) : ∃ word, leadingKeyword s = (word, (Assembly.leadingSize s).2) ∧
    (word.mapM keywordWidth : Partial ε (Option Nat)) = .ok ((Assembly.leadingSize s).1.map Width.bits) := by
  have htable : sizeKeywords = Width.all.map fun w => (w.keyword, w.bits) := rfl
  unfold leadingKeyword Assembly.leadingSize
  rw [htable]
  obtain ⟨hfind, hsome⟩ | ⟨w, hw, hfind, hsome⟩ := find?_keyword s Width.all
  · rw [hfind, hsome]
    exact ⟨none, rfl, rfl⟩
  · rw [hfind, hsome]
    refine ⟨some (s.take w.keyword.length), rfl, ?_⟩
    rw [Option.mapM_some, keywordWidth_eq hw]
    rfl

private theorem readMemoryOperand_erase (s : List Char) :
    readMemoryOperand s = settled ((Assembly.readMemory s).map eraseRaw) := by
  obtain ⟨word, hkeyword, hwidth⟩ := leadingKeyword_eq (ε := Complaint) s
  unfold readMemoryOperand Assembly.readMemory
  rw [hkeyword]
  dsimp only
  cases Assembly.insideBrackets? (Assembly.leadingSize s).2 with
  | none => rfl
  | some inner =>
    dsimp only
    rw [hwidth, ok_bind, Assembly.readAddress]
    cases hterms : Assembly.sumTerms? (Text.withoutBlanks inner) with
    | none => rfl
    | some terms =>
      have hparts : terms.mapM addressPart = settled ((terms.mapM SumTerm.part).map (List.map erasePart)) :=
        mapM_settled fun t ht => addressPart_erase (sign_of_mem_sumTerms hterms t ht)
      dsimp only
      rw [hparts]
      cases terms.mapM SumTerm.part with
      | error e => rfl
      | ok parts => exact memoryOfParts_erase s _ parts

private theorem lookup_keyword (word : List Char) :
    (sizeKeywords.lookup (String.ofList (Text.lower word))).isSome =
      Width.all.any fun w => Text.spells word w.keyword := by
  have htable : sizeKeywords = Width.all.map fun w => (w.keyword, w.bits) := rfl
  have hspells (w : Width) : String.ofList (Text.lower word) = w.keyword ↔ Text.spells word w.keyword = true :=
    ⟨fun h => by rw [Text.spells, ← h, String.toList_ofList, beq_self_eq_true], ofList_eq_of_spells⟩
  rw [Bool.eq_iff_iff, List.lookup_isSome_iff, List.any_eq_true, htable]
  constructor
  · rintro ⟨_, hp, hw⟩
    obtain ⟨w, hmem, rfl⟩ := List.mem_map.1 hp
    exact ⟨w, hmem, (hspells w).1 (eq_of_beq hw)⟩
  · rintro ⟨w, hmem, hw⟩
    exact ⟨_, List.mem_map_of_mem hmem, beq_iff_eq.2 ((hspells w).2 hw)⟩

private theorem readName_erase (s : List Char) :
    (match VectorRegister.ofName? s with
      | some _ => .ok (.register (String.ofList (Text.lower s)) VectorRegister.bits)
      | none =>
        match View.ofName? s with
        | some v => .ok (.register v.name v.bits)
        | none => refused ⟨.unknownRegister s, s⟩ : Partial Complaint RawOperand) =
      settled ((match RegisterName.ofText? s with
        | some (.vector x) => .ok (.vector x)
        | some (.view v) => .ok (.register v)
        | none => .error ⟨.unknownRegister s, s⟩ : Except Complaint Assembly.RawOperand).map eraseRaw) := by
  have hvector {x : VectorRegister} (hx : VectorRegister.ofName? s = some x) :
      String.ofList (Text.lower s) = x.name := by
    have hspells : Text.spells s x.name = true :=
      List.find?_some (p := fun x : VectorRegister => Text.spells s x.name) hx
    exact ofList_eq_of_spells hspells
  unfold RegisterName.ofText?
  cases hx : VectorRegister.ofName? s with
  | some x =>
    dsimp only
    rw [hvector hx]
    rfl
  | none =>
    dsimp only
    cases View.ofName? s <;> rfl

private theorem readSimpleOperand_erase {c : Char} {r : List Char} (hc : Text.isBlank c = false) :
    readSimpleOperand (c :: r) = settled ((Assembly.readSimple (c :: r)).map eraseRaw) := by
  obtain ⟨rest, hwords⟩ := words_cons hc r
  have hword : (element (words (c :: r)) 0 : Partial Complaint _) = .ok (Text.firstWord (c :: r)) := by
    rw [hwords]
    rfl
  unfold readSimpleOperand Assembly.readSimple
  generalize c :: r = s at *
  rw [hword, ok_bind, lookup_keyword]
  split
  · rfl
  · obtain ⟨hs, hnone⟩ | ⟨hs, z, hz, hnumeral⟩ := numeral_eq (ε := Complaint) s
    · rw [hs, hnone]
      cases hidentifier : Text.isIdentifier s with
      | true => exact readName_erase s
      | false => rfl
    · rw [hs, hz, hnumeral]
      rfl

private theorem readOperand_erase {c : Char} {r : List Char} (hc : Text.isBlank c = false) :
    readOperand (c :: r) = settled ((Assembly.readOperand (c :: r)).map eraseRaw) := by
  unfold readOperand Assembly.readOperand
  split
  · exact readMemoryOperand_erase _
  · exact readSimpleOperand_erase hc

private def erasePlaced (p : Assembly.PlacedOperand) : PlacedOperand := ⟨eraseRaw p.operand, p.column⟩

private theorem readPiece_erase {p : Piece} (h : ∃ c r, p.text = c :: r ∧ Text.isBlank c = false) :
    readPiece p = settled (p.operand.map erasePlaced) := by
  obtain ⟨c, r, htext, hc⟩ := h
  unfold readPiece Piece.operand
  rw [htext, readOperand_erase hc]
  cases Assembly.readOperand (c :: r) <;> rfl

/-! ### Widths -/

/-- The untyped form of an operand whose width may still be open. -/
private def eraseSized : Assembly.SizedOperand → SizedOperand
  | .known o => .known o.erase
  | .literal z column => .literal z column

private theorem sizingWidths_erase (m : Mnemonic) (operands : List Assembly.PlacedOperand) :
    sizingWidths m (operands.map erasePlaced) = (Assembly.sizingWidths m operands).map Width.bits := by
  rw [sizingWidths, Assembly.sizingWidths, List.zipIdx_map, List.filterMap_map, List.map_filterMap]
  refine congrArg (List.filterMap · operands.zipIdx) (funext fun ⟨⟨o, column⟩, k⟩ => ?_)
  cases o with
  | register v =>
    have hwidth : v.bits ≠ VectorRegister.bits := by unfold View.bits; cases v.width <;> decide
    show (if v.bits = VectorRegister.bits ∨ m.isShift ∧ k = 1 then none else some v.bits) =
      Option.map Width.bits (if m.isShift ∧ k = 1 then none else some v.width)
    simp only [hwidth, false_or]
    split <;> rfl
  | _ => rfl

private theorem impliedWidth_erase (m : Mnemonic) (k : Nat) (widths : List Width) :
    (impliedWidth m k (widths.map Width.bits) : Partial ε (Option Nat)) =
      .ok ((Assembly.impliedWidth? m k widths).map Width.bits) := by
  unfold impliedWidth Assembly.impliedWidth?
  rw [first?_eq]
  repeat' split
  · rfl
  · rfl
  · rfl
  · cases widths <;> rfl
  · rfl
  · cases widths <;> rfl

private theorem sizeMemory_erase (m : Mnemonic) (widths : List Width) (p : Assembly.PlacedOperand) (k : Nat) :
    sizeMemory m (widths.map Width.bits) (erasePlaced p) k =
      settled ((Assembly.sizeMemory m widths p k).map eraseSized) := by
  obtain ⟨o, column⟩ := p
  cases o with
  | memory a width =>
    have hwidth : (memoryWidth m k (widths.map Width.bits) (width.map Width.bits) : Partial ParseError _) =
        .ok ((width.or (Assembly.impliedWidth? m k widths)).map Width.bits) := by
      cases width with
      | none => exact impliedWidth_erase m k widths
      | some w => rfl
    unfold sizeMemory Assembly.sizeMemory erasePlaced
    simp only [eraseRaw, hwidth, ok_bind]
    cases width.or (Assembly.impliedWidth? m k widths) <;> rfl
  | _ => rfl

private theorem sizeImmediate_erase (m : Mnemonic) {sized : List Assembly.SizedOperand} (h : sized ≠ [])
    (o : Assembly.SizedOperand) (k : Nat) :
    sizeImmediate m (sized.map eraseSized) (eraseSized o) k =
      settled ((Assembly.sizeImmediate m sized.head? o k).map LongMode.Operand.erase) := by
  cases o with
  | known o => rfl
  | literal z column =>
    obtain ⟨first, rest, rfl⟩ := List.exists_cons_of_ne_nil h
    have hfirst : widthOfFirst ((first :: rest).map eraseSized) z column = settled (match first with
        | .known o => .ok o.bits
        | .literal _ _ => .error ⟨.immediateDestination z, (Text.decimal z).toList, column⟩) := by
      cases first with
      | known o => exact congrArg Except.ok (width_erase o)
      | literal z column => rfl
    simp only [sizeImmediate, eraseSized, Assembly.sizeImmediate, Assembly.immediateBits?, List.head?_cons]
    split
    · rfl
    · split
      · rfl
      · split
        · rfl
        · rw [hfirst]
          cases first <;> rfl

private theorem resolveWidths_erase (m : Mnemonic) (operands : List Assembly.PlacedOperand) :
    resolveWidths m (operands.map erasePlaced) =
      settled ((Assembly.resolveWidths m operands).map (List.map LongMode.Operand.erase)) := by
  unfold resolveWidths Assembly.resolveWidths
  rw [sizingWidths_erase]
  have hsized := mapM_erased (e := Prod.map erasePlaced id) (l := operands.zipIdx)
    (f := fun p => Assembly.sizeMemory m (Assembly.sizingWidths m operands) p.1 p.2)
    (g := fun p => sizeMemory m ((Assembly.sizingWidths m operands).map Width.bits) p.1 p.2)
    fun p _ => sizeMemory_erase m _ p.1 p.2
  rw [← List.zipIdx_map] at hsized
  refine (congrArg (· >>= _) hsized).trans ?_
  change _ = settled (Except.map _ (operands.zipIdx.mapM (fun p =>
    Assembly.sizeMemory m (Assembly.sizingWidths m operands) p.1 p.2) >>= _))
  cases operands.zipIdx.mapM fun p => Assembly.sizeMemory m (Assembly.sizingWidths m operands) p.1 p.2 with
  | error e => rfl
  | ok sized =>
    have hfinal := mapM_erased (e := Prod.map eraseSized id) (l := sized.zipIdx)
      (f := fun p => Assembly.sizeImmediate m sized.head? p.1 p.2)
      (g := fun p => sizeImmediate m (sized.map eraseSized) p.1 p.2)
      fun p hp => sizeImmediate_erase m (List.ne_nil_of_mem (List.fst_mem_of_mem_zipIdx hp)) p.1 p.2
    rw [← List.zipIdx_map] at hfinal
    exact hfinal

/-! ### Instructions -/

theorem parse_erase (text : List Char) :
    parse text = settled ((Assembly.parse text).map LongMode.Instruction.erase) := by
  unfold parse Assembly.parse
  dsimp only
  split
  · rfl
  · cases Assembly.readMnemonic (Text.firstWord (Text.trimLeft (Assembly.withoutComment text)))
        ((Assembly.withoutComment text).takeWhile Text.isBlank).length with
    | error e => rfl
    | ok m =>
      simp only [settled_ok, ok_bind]
      cases hpieces : Assembly.splitOperands _ _ with
      | error e => rfl
      | ok pieces =>
        have hoperands : pieces.mapM readPiece = settled ((pieces.mapM Piece.operand).map (List.map erasePlaced)) :=
          mapM_settled fun p hp => readPiece_erase (text_of_mem_pieces hpieces hp)
        simp only [settled_ok, ok_bind]
        rw [hoperands]
        cases pieces.mapM Piece.operand with
        | error e => rfl
        | ok operands =>
          simp only [map_ok, settled_ok, ok_bind, operandCounts_eq, List.length_map, resolveWidths_erase]
          split
          · rfl
          · cases Assembly.resolveWidths m operands <;> rfl

end LongMode.Untyped

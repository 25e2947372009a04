import Mathlib.Data.Nat.Digits.Defs
import Mathlib.Tactic.Ring
import LongMode.Proofs.Assembly.Pieces
import LongMode.Proofs.Assembly.Shape
import LongMode.Proofs.Text.Numeral

/-!
# Numerals and their spellings

A numeral is a sign, which may be missing, a radix and one or more digits, the first of which may be zeros.  It is
spelled in any letter case.

* `natural?_eq_some_iff`, `unsigned?_eq_some_iff` and `integer?_eq_some_iff`: what is read as a number is a spelling of a
  numeral that has the number for its value.
* `Numeral.eq_of_isSpelled`: no text spells two numerals.
* `readOperand_eq_immediate`: an operand is read as an immediate where it is such a spelling.
* `numerals_denote`: all of these, and that immediates are written as numerals.
-/

namespace LongMode

namespace Text

inductive Radix
  | binary | decimal | hexadecimal
  deriving DecidableEq, Repr

namespace Radix

def base : Radix → Nat
  | binary => 2
  | decimal => 10
  | hexadecimal => 16

/-- What stands in front of the digits, in small letters. -/
def marker : Radix → List Char
  | binary => ['0', 'b']
  | decimal => []
  | hexadecimal => ['0', 'x']

theorem base_le (r : Radix) : r.base ≤ 16 := by cases r <;> decide

end Radix

inductive Sign
  | none | plus | minus
  deriving DecidableEq, Repr

namespace Sign

def text : Sign → List Char
  | none => []
  | plus => ['+']
  | minus => ['-']

def apply : Sign → Nat → Int
  | none, n | plus, n => n
  | minus, n => -n

/-- The sign that a text starts with. -/
def ofText : List Char → Sign
  | '+' :: _ => plus
  | '-' :: _ => minus
  | _ => none

end Sign

/-- A sign, a radix and digits, the most significant first. -/
@[ext]
structure Numeral where
  sign : Sign
  radix : Radix
  digits : List Nat
  ne_nil : digits ≠ []
  digit_lt : ∀ d ∈ digits, d < radix.base

namespace Numeral

def magnitude (n : Numeral) : Nat := Nat.ofDigits n.radix.base n.digits.reverse

def value (n : Numeral) : Int := n.sign.apply n.magnitude

/-- The numeral without its sign, in small letters. -/
def body (n : Numeral) : List Char := n.radix.marker ++ n.digits.map Nat.digitChar

/-- The letters of a spelling may have either case. -/
def IsSpelled (n : Numeral) (s : List Char) : Prop := lower s = n.sign.text ++ n.body

end Numeral

variable {s : List Char} {radix k : Nat}

/-! ### Digits -/

theorem continueNatural?_digits (hr : radix ≤ 16) {ds : List Nat} (h : ∀ d ∈ ds, d < radix) (n : Nat) :
    continueNatural? radix n (ds.map Nat.digitChar) = some (n * radix ^ ds.length + Nat.ofDigits radix ds.reverse) := by
  induction ds generalizing n with
  | nil => simp [continueNatural?]
  | cons d ds ih =>
    have hd := digit?_digitChar hr (h d List.mem_cons_self)
    have hrest := ih (fun d hd => h d (List.mem_cons_of_mem _ hd)) (n * radix + d)
    rw [List.map_cons, continueNatural?, hd, Option.bind_some, hrest, Nat.ofDigits_reverse_cons, List.length_cons]
    congr 1
    ring

theorem natural?_digits (hr : radix ≤ 16) {ds : List Nat} (hne : ds ≠ []) (h : ∀ d ∈ ds, d < radix) :
    natural? radix (ds.map Nat.digitChar) = some (Nat.ofDigits radix ds.reverse) := by
  have hread := continueNatural?_digits hr h 0
  rw [Nat.zero_mul, Nat.zero_add] at hread
  obtain ⟨d, rest, rfl⟩ := List.exists_cons_of_ne_nil hne
  exact hread

private theorem toNat_lt_of_digitValue? {c : Char} {d : Nat} (h : digitValue? c = some d) : c.toNat < 103 := by
  have hle : ∀ x : Char, x.toNat < 103 → c ≤ x → c.toNat < 103 := fun x hx hc => Nat.lt_of_le_of_lt hc hx
  unfold digitValue? at h
  split at h
  · rename_i hc
    exact hle '9' (by decide) hc.2
  · split at h
    · rename_i hc
      exact hle 'f' (by decide) hc.2
    · split at h
      · rename_i hc
        exact hle 'F' (by decide) hc.2
      · cases h

theorem toLower_eq_digitChar {c : Char} {d : Nat} (h : digit? radix c = some d) :
    d < radix ∧ c.toLower = d.digitChar := by
  have hall : ∀ n < 103, ((digitValue? (Char.ofNat n)).all fun d => (Char.ofNat n).toLower = d.digitChar) = true := by
    decide
  obtain ⟨hvalue, hlt⟩ := Option.filter_eq_some_iff.1 h
  have hc := hall c.toNat (toNat_lt_of_digitValue? hvalue)
  rw [Char.ofNat_toNat, hvalue] at hc
  exact ⟨by simpa using hlt, by simpa using hc⟩

theorem exists_digits {n : Nat} (h : continueNatural? radix n s = some k) :
    ∃ ds : List Nat, (∀ d ∈ ds, d < radix) ∧ lower s = ds.map Nat.digitChar := by
  induction s generalizing n with
  | nil => exact ⟨[], nofun, rfl⟩
  | cons c s ih =>
    obtain ⟨d, hd, hs⟩ := Option.bind_eq_some_iff.1 h
    obtain ⟨hlt, hc⟩ := toLower_eq_digitChar hd
    obtain ⟨ds, hds, hlower⟩ := ih hs
    refine ⟨d :: ds, List.forall_mem_cons.2 ⟨hlt, hds⟩, ?_⟩
    rw [List.map_cons, ← hlower, ← hc]
    rfl

theorem natural?_eq_some_iff (hr : radix ≤ 16) : natural? radix s = some k ↔ ∃ ds : List Nat, ds ≠ [] ∧
    (∀ d ∈ ds, d < radix) ∧ lower s = ds.map Nat.digitChar ∧ Nat.ofDigits radix ds.reverse = k := by
  constructor
  · intro h
    cases s with
    | nil => cases h
    | cons c s =>
      obtain ⟨ds, hds, hlower⟩ := exists_digits h
      have hne : ds ≠ [] := by
        rintro rfl
        cases hlower
      rw [← natural?_lower, hlower, natural?_digits hr hne hds] at h
      exact ⟨ds, hne, hds, hlower, Option.some.inj h⟩
  · rintro ⟨ds, hne, hds, hlower, rfl⟩
    rw [← natural?_lower, hlower, natural?_digits hr hne hds]

/-! ### Radix and sign -/

namespace Numeral

variable {n n' : Numeral}

/-- Decimal digits do not start with the marker of another radix. -/
private theorem decimal_ne_marked {ds : List Nat} (h : ∀ d ∈ ds, d < 10) {c : Char} (hc : c ∈ ['x', 'X', 'b', 'B'])
    {t : List Char} : ds.map Nat.digitChar ≠ '0' :: c :: t := by
  have hletters : ∀ d < 10, d.digitChar ∉ ['x', 'X', 'b', 'B'] := by decide
  intro heq
  have hmem : c ∈ ds.map Nat.digitChar := by
    rw [heq]
    exact List.mem_cons_of_mem _ List.mem_cons_self
  obtain ⟨d, hd, rfl⟩ := List.mem_map.1 hmem
  exact hletters d (h d hd) hc

/-- A numeral without its sign does not start with one. -/
theorem exists_body_eq_cons (n : Numeral) : ∃ c t, n.body = c :: t ∧ c ≠ '+' ∧ c ≠ '-' := by
  obtain ⟨sign, radix, digits, hne, hdigits⟩ := n
  cases radix with
  | binary => exact ⟨'0', _, rfl, by decide⟩
  | hexadecimal => exact ⟨'0', _, rfl, by decide⟩
  | decimal =>
    have hsigns : ∀ d < 10, d.digitChar ≠ '+' ∧ d.digitChar ≠ '-' := by decide
    obtain ⟨d, rest, rfl⟩ := List.exists_cons_of_ne_nil hne
    exact ⟨d.digitChar, _, rfl, hsigns d (hdigits d List.mem_cons_self)⟩

theorem unsigned?_body (n : Numeral) : unsigned? n.body = some n.magnitude := by
  obtain ⟨sign, radix, digits, hne, hdigits⟩ := n
  have hread := natural?_digits radix.base_le hne hdigits
  rw [body, magnitude, ← hread]
  cases radix with
  | binary => rfl
  | hexadecimal => rfl
  | decimal =>
    show unsigned? (digits.map Nat.digitChar) = _
    unfold unsigned?
    split
    case h_5 => rfl
    all_goals
      rename_i h
      exact absurd h (decimal_ne_marked hdigits (by decide))

theorem integer?_text (n : Numeral) : integer? (n.sign.text ++ n.body) = some n.value := by
  have hbody := n.unsigned?_body
  rw [value]
  cases n.sign with
  | plus => exact (integer?_plus_cons n.body).trans (by rw [hbody]; rfl)
  | minus => exact integer?_minus hbody
  | none =>
    obtain ⟨c, t, hcons, hc⟩ := n.exists_body_eq_cons
    rw [hcons] at hbody ⊢
    exact integer?_unsigned hc hbody

/-! ### One reading -/

private theorem ofText_text (n : Numeral) : Sign.ofText (n.sign.text ++ n.body) = n.sign := by
  cases n.sign with
  | plus => rfl
  | minus => rfl
  | none =>
    obtain ⟨c, t, hbody, hplus, hminus⟩ := n.exists_body_eq_cons
    show Sign.ofText n.body = _
    rw [hbody]
    unfold Sign.ofText
    split
    · rename_i h
      exact absurd (List.cons.inj h).1 hplus
    · rename_i h
      exact absurd (List.cons.inj h).1 hminus
    · rfl

private theorem radix_eq (h : n.body = n'.body) : n.radix = n'.radix := by
  obtain ⟨sign, radix, digits, hne, hdigits⟩ := n
  obtain ⟨sign', radix', digits', hne', hdigits'⟩ := n'
  cases radix <;> cases radix'
  case binary.binary | decimal.decimal | hexadecimal.hexadecimal => rfl
  case binary.hexadecimal | hexadecimal.binary => cases h
  case binary.decimal | hexadecimal.decimal => exact absurd h.symm (decimal_ne_marked hdigits' (by decide))
  case decimal.binary | decimal.hexadecimal => exact absurd h (decimal_ne_marked hdigits (by decide))

private theorem map_digit? {ds : List Nat} (h : ∀ d ∈ ds, d < 16) :
    (ds.map Nat.digitChar).map (fun c => (digit? 16 c).getD 0) = ds := by
  rw [List.map_map]
  refine (List.map_congr_left fun d hd => ?_).trans (List.map_id ds)
  rw [Function.comp_apply, digit?_digitChar (Nat.le_refl 16) (h d hd)]
  rfl

theorem eq_of_isSpelled (h : n.IsSpelled s) (h' : n'.IsSpelled s) : n = n' := by
  have htext : n.sign.text ++ n.body = n'.sign.text ++ n'.body := h.symm.trans h'
  have hsign : n.sign = n'.sign := by rw [← n.ofText_text, htext, n'.ofText_text]
  rw [hsign] at htext
  have hbody : n.body = n'.body := List.append_cancel_left htext
  have hradix := radix_eq hbody
  have hdigits : n.digits.map Nat.digitChar = n'.digits.map Nat.digitChar := by
    rw [body, body, hradix] at hbody
    exact List.append_cancel_left hbody
  have hlt : ∀ m : Numeral, ∀ d ∈ m.digits, d < 16 := fun m d hd => Nat.lt_of_lt_of_le (m.digit_lt d hd) m.radix.base_le
  refine Numeral.ext hsign hradix ?_
  rw [← map_digit? (hlt n), hdigits, map_digit? (hlt n')]

end Numeral

/-! ### Texts that are numerals -/

private theorem exists_numeral (sign : Sign) (r : Radix) {t : List Char}
    (hs : lower s = sign.text ++ (r.marker ++ lower t)) (h : natural? r.base t = some k) :
    ∃ n : Numeral, n.sign = sign ∧ n.IsSpelled s ∧ n.magnitude = k := by
  obtain ⟨ds, hne, hds, hlower, hk⟩ := (natural?_eq_some_iff r.base_le).1 h
  rw [hlower] at hs
  exact ⟨⟨sign, r, ds, hne, hds⟩, rfl, hs, hk⟩

/-- What may stand behind a sign. -/
private theorem exists_signed (sign : Sign) {t : List Char} (hs : lower s = sign.text ++ lower t)
    (h : unsigned? t = some k) : ∃ n : Numeral, n.sign = sign ∧ n.IsSpelled s ∧ n.magnitude = k := by
  unfold unsigned? at h
  split at h
  · exact exists_numeral sign .hexadecimal hs h
  · exact exists_numeral sign .hexadecimal hs h
  · exact exists_numeral sign .binary hs h
  · exact exists_numeral sign .binary hs h
  · exact exists_numeral sign .decimal hs h

theorem unsigned?_eq_some_iff :
    unsigned? s = some k ↔ ∃ n : Numeral, n.sign = .none ∧ n.IsSpelled s ∧ n.magnitude = k := by
  constructor
  · exact fun h => exists_signed .none rfl h
  · rintro ⟨n, hsign, hs, rfl⟩
    rw [← unsigned?_lower, hs, hsign]
    exact n.unsigned?_body

/-- Reading a text is reading what stands behind its sign. -/
private theorem exists_sign (s : List Char) :
    ∃ (sign : Sign) (t : List Char), s = sign.text ++ t ∧ integer? s = (unsigned? t).map sign.apply := by
  rcases s with _ | ⟨c, t⟩
  · exact ⟨.none, [], rfl, rfl⟩
  · by_cases hplus : c = '+'
    · subst hplus
      exact ⟨.plus, t, rfl, integer?_plus_cons t⟩
    · by_cases hminus : c = '-'
      · subst hminus
        exact ⟨.minus, t, rfl, integer?_minus_cons t⟩
      · exact ⟨.none, c :: t, rfl, integer?_of_ne ⟨hplus, hminus⟩⟩

theorem integer?_eq_some_iff {v : Int} : integer? s = some v ↔ ∃ n : Numeral, n.IsSpelled s ∧ n.value = v := by
  constructor
  · intro h
    obtain ⟨sign, t, rfl, hread⟩ := exists_sign s
    rw [hread] at h
    obtain ⟨k, hk, rfl⟩ := Option.map_eq_some_iff.1 h
    have hlower : lower (sign.text ++ t) = sign.text ++ lower t := by cases sign <;> rfl
    obtain ⟨n, rfl, hn, rfl⟩ := exists_signed sign hlower hk
    exact ⟨n, hn, rfl⟩
  · rintro ⟨n, hs, rfl⟩
    rw [← integer?_lower, hs, n.integer?_text]

/-- The characters of a spelling, in small letters. -/
theorem Numeral.toLower_mem_of_isSpelled {n : Numeral} (h : n.IsSpelled s) :
    ∀ c ∈ s, c.toLower ∈ "+-0123456789abcdefx".toList := by
  have hdigits : ∀ d < 16, d.digitChar ∈ "+-0123456789abcdefx".toList := by decide
  intro c hc
  have hmem : c.toLower ∈ n.sign.text ++ n.body := by
    rw [← h]
    exact List.mem_map_of_mem hc
  rw [body, List.mem_append, List.mem_append] at hmem
  rcases hmem with hmem | hmem | hmem
  · revert hmem
    cases n.sign <;> exact forall_mem_of_all (by decide) _
  · revert hmem
    cases n.radix <;> exact forall_mem_of_all (by decide) _
  · obtain ⟨d, hd, hdigit⟩ := List.mem_map.1 hmem
    rw [← hdigit]
    exact hdigits d (Nat.lt_of_lt_of_le (n.digit_lt d hd) n.radix.base_le)

end Text

namespace Assembly

open Text (Numeral)

variable {s : List Char} {z : Int}

theorem readOperand_eq_immediate : readOperand s = .ok (.immediate z) ↔ Text.integer? s = some z := by
  refine ⟨integer?_of_readOperand, fun h => ?_⟩
  obtain ⟨n, hs, -⟩ := Text.integer?_eq_some_iff.1 h
  have hcharacters : ∀ c ∈ s, Text.isBlank c = false ∧ isDelimiter c = false := by
    have hall : ∀ c ∈ "+-0123456789abcdefx".toList, Text.isBlank c = false ∧ isDelimiter c = false :=
      Text.forall_mem_of_all (by decide)
    intro c hc
    have hlower := hall _ (Numeral.toLower_mem_of_isSpelled hs c hc)
    rw [Text.isBlank_toLower, Text.apply_toLower (f := isDelimiter) (by decide)] at hlower
    exact hlower
  have hbracket : ∀ b, isDelimiter b = true → s.contains b = false := by
    intro b hb
    rw [Bool.eq_false_iff, ne_eq, List.contains_iff_mem]
    intro hmem
    exact absurd (hcharacters b hmem).2 (by simp [hb])
  have hword : Text.firstWord s = s := by
    simpa using Text.firstWord_append (fun c hc => (hcharacters c hc).1) (t := []) (by simp)
  -- no size keyword is a numeral
  have hkeyword : Width.all.any (fun w => Text.spells s w.keyword) = false := by
    rw [List.any_eq_false]
    intro w _ hspells
    have hlower : Text.lower s = w.keyword.toList := by simpa [Text.spells] using hspells
    rw [← Text.integer?_lower, hlower] at h
    cases w <;> cases h
  rw [readOperand, hbracket '[' rfl, hbracket ']' rfl, readSimple, hword, hkeyword, h]
  rfl

/-- A text is read as an integer where it spells a numeral with this value, in any letter case and with any number of
leading zeros; without a sign, it is read as a number in an address; an operand is read as an immediate just there; and a
text spells one numeral at most.  The text of an immediate spells a numeral with its value. -/
theorem numerals_denote :
    (∀ (s : List Char) (v : Int), Text.integer? s = some v ↔ ∃ n : Numeral, n.IsSpelled s ∧ n.value = v) ∧
      (∀ (s : List Char) (k : Nat), Text.unsigned? s = some k ↔
        ∃ n : Numeral, n.sign = .none ∧ n.IsSpelled s ∧ n.value = k) ∧
      (∀ (s : List Char) (v : Int), readOperand s = .ok (.immediate v) ↔ Text.integer? s = some v) ∧
      (∀ (s : List Char) (n n' : Numeral), n.IsSpelled s → n'.IsSpelled s → n = n') ∧
      ∀ (v : Int) (bits : Nat), ∃ n : Numeral, n.IsSpelled (Operand.immediate v bits).text.toList ∧ n.value = v := by
  refine ⟨fun s v => Text.integer?_eq_some_iff, fun s k => ?_, fun s v => readOperand_eq_immediate,
    fun s n n' => Numeral.eq_of_isSpelled, fun v bits => Text.integer?_eq_some_iff.1 (Text.integer?_signedHex v)⟩
  rw [Text.unsigned?_eq_some_iff]
  refine exists_congr fun n => and_congr_right fun hsign => and_congr_right fun _ => ?_
  rw [Numeral.value, hsign]
  exact Int.natCast_inj.symm

/-- A negative number with leading zeros and letters of both cases. -/
theorem numerals_denote_leading_zeros : ∃ n : Numeral, n.IsSpelled "-0X00bF".toList ∧ n.value = -191 ∧
    Text.integer? "-0X00bF".toList = some (-191) ∧ readOperand "-0X00bF".toList = .ok (.immediate (-191)) ∧
    ∀ n' : Numeral, n'.IsSpelled "-0X00bF".toList → n' = n := by
  obtain ⟨hread, -, hoperand, hunique, -⟩ := numerals_denote
  obtain ⟨n, hn⟩ : ∃ n : Numeral, n = ⟨.minus, .hexadecimal, [0, 0, 11, 15], by decide, by decide⟩ := ⟨_, rfl⟩
  have hspelled : n.IsSpelled "-0X00bF".toList := by
    rw [hn]
    rfl
  have hvalue : n.value = -191 := by
    rw [hn]
    rfl
  have hinteger : Text.integer? "-0X00bF".toList = some (-191) := (hread _ _).2 ⟨n, hspelled, hvalue⟩
  exact ⟨n, hspelled, hvalue, hinteger, (hoperand _ _).2 hinteger, fun n' h => hunique _ n' n h hspelled⟩

end Assembly

end LongMode

import LongMode.Proofs.Text.Letter
import LongMode.Text.Numeral

/-!
# Numerals read back

What `hex` and `signedHex` write is read as the number that was written.

* `continueNatural?_toDigits`: the digits of a number, in any radix up to sixteen, denote it.
* `unsigned?_hex` and `integer?_signedHex`: the same with the marker and with the sign.
* `mem_hex`: a numeral without a sign consists of small letters and digits.
* `unsigned?_lower` and `integer?_lower`: letter case does not matter to a numeral.
* `not_mem_of_unsigned?`: what is neither a digit nor the letter of a marker occurs in no numeral that can be read.
-/

namespace LongMode.Text

/-- The characters of names and of numerals without a sign. -/
def wordCharacters : List Char := "abcdefghijklmnopqrstuvwxyz0123456789".toList

/-- What holds of each character of a text is decided by going through the text. -/
theorem forall_mem_of_all {s : List Char} {p : Char → Prop} [DecidablePred p] (h : s.all (fun c => p c) = true) :
    ∀ c ∈ s, p c := by
  rw [List.all_eq_true] at h
  exact fun c hc => of_decide_eq_true (h c hc)

theorem digit?_digitChar {radix d : Nat} (hr : radix ≤ 16) (hd : d < radix) : digit? radix d.digitChar = some d := by
  have hall : ∀ d < 16, digitValue? d.digitChar = some d := by decide
  simp [digit?, hall d (by omega), hd]

theorem continueNatural?_append (radix n : Nat) (s t : List Char) :
    continueNatural? radix n (s ++ t) = (continueNatural? radix n s).bind fun k => continueNatural? radix k t := by
  induction s generalizing n with
  | nil => rfl
  | cons c s ih =>
    simp only [List.cons_append, continueNatural?]
    cases digit? radix c with
    | none => rfl
    | some d => exact ih _

theorem continueNatural?_toDigits {radix : Nat} (h : 1 < radix) (hr : radix ≤ 16) (n : Nat) :
    continueNatural? radix 0 (Nat.toDigits radix n) = some n := by
  induction n using Nat.strongRecOn with
  | ind n ih =>
    by_cases hn : n < radix
    · rw [Nat.toDigits_of_lt_base hn]
      simp [continueNatural?, digit?_digitChar hr hn]
    · have hq : n / radix < n := Nat.div_lt_self (by omega) h
      have hm : n % radix < radix := Nat.mod_lt _ (by omega)
      -- all digits but the last are those of the quotient
      rw [Nat.toDigits_of_base_le h (by omega), continueNatural?_append, ih _ hq]
      simp [continueNatural?, digit?_digitChar hr hm, Nat.div_add_mod']

theorem natural?_toDigits {radix : Nat} (h : 1 < radix) (hr : radix ≤ 16) (n : Nat) :
    natural? radix (Nat.toDigits radix n) = some n := by
  have hc := continueNatural?_toDigits h hr n
  cases hs : Nat.toDigits radix n with
  | nil => exact absurd hs Nat.toDigits_ne_nil
  | cons c s => rwa [hs] at hc

theorem exists_digit_of_mem_toDigits {radix n : Nat} {c : Char} (h : 1 < radix) (hc : c ∈ Nat.toDigits radix n) :
    ∃ d < radix, c = d.digitChar := by
  induction n using Nat.strongRecOn with
  | ind n ih =>
    by_cases hn : n < radix
    · rw [Nat.toDigits_of_lt_base hn] at hc
      exact ⟨n, hn, by simpa using hc⟩
    · rw [Nat.toDigits_of_base_le h (by omega), List.mem_append] at hc
      rcases hc with hc | hc
      · exact ih _ (Nat.div_lt_self (by omega) h) hc
      · exact ⟨n % radix, Nat.mod_lt _ (by omega), by simpa using hc⟩

/-! ### Hexadecimal -/

theorem toList_hex (n : Nat) : (hex n).toList = '0' :: 'x' :: Nat.toDigits 16 n := by
  simp [hex, hexDigits, String.toList_append]

theorem mem_hex {n : Nat} : ∀ c ∈ (hex n).toList, c ∈ wordCharacters := by
  have hdigits : ∀ d < 16, d.digitChar ∈ wordCharacters := by decide
  intro c hc
  rw [toList_hex, List.mem_cons, List.mem_cons] at hc
  rcases hc with rfl | rfl | hc
  · decide
  · decide
  · obtain ⟨d, hd, rfl⟩ := exists_digit_of_mem_toDigits (by omega) hc
    exact hdigits d hd

theorem unsigned?_hex (n : Nat) : unsigned? (hex n).toList = some n := by
  rw [toList_hex]
  exact natural?_toDigits (by omega) (by omega) n

/-- The sign of a numeral in front of its magnitude. -/
theorem toList_signedHex (z : Int) :
    (signedHex z).toList = (if z < 0 then ['-'] else []) ++ (hex z.natAbs).toList := by
  unfold signedHex
  split <;> simp [String.toList_append]

theorem integer?_plus_cons (s : List Char) :
    integer? ('+' :: s) = (unsigned? s).map fun n : Nat => (n : Int) := by
  rw [integer?]
  cases unsigned? s <;> rfl

theorem integer?_minus_cons (s : List Char) :
    integer? ('-' :: s) = (unsigned? s).map fun n : Nat => -(n : Int) := by
  rw [integer?]
  cases unsigned? s <;> rfl

theorem integer?_of_ne {c : Char} {s : List Char} (hc : c ≠ '+' ∧ c ≠ '-') :
    integer? (c :: s) = (unsigned? (c :: s)).map fun n : Nat => (n : Int) := by
  unfold integer?
  split
  · rename_i hs
    exact absurd (List.cons.inj hs).1 hc.1
  · rename_i hs
    exact absurd (List.cons.inj hs).1 hc.2
  · cases unsigned? (c :: s) <;> rfl

theorem integer?_minus {s : List Char} {n : Nat} (h : unsigned? s = some n) :
    integer? ('-' :: s) = some (-(n : Int)) := by
  rw [integer?_minus_cons, h, Option.map_some]

theorem integer?_unsigned {c : Char} {s : List Char} {n : Nat} (hc : c ≠ '+' ∧ c ≠ '-')
    (h : unsigned? (c :: s) = some n) : integer? (c :: s) = some (n : Int) := by
  rw [integer?_of_ne hc, h, Option.map_some]

theorem integer?_signedHex (z : Int) : integer? (signedHex z).toList = some z := by
  rw [toList_signedHex]
  by_cases hz : z < 0
  · rw [if_pos hz, List.singleton_append, integer?_minus (unsigned?_hex _)]
    congr 1
    omega
  · have hu := unsigned?_hex z.natAbs
    rw [toList_hex] at hu
    rw [if_neg hz, List.nil_append, toList_hex, integer?_unsigned (by decide) hu]
    congr 1
    omega

/-! ### The characters of a numeral -/

section

variable {c : Char} {s : List Char} {n k : Nat}

private theorem not_mem_of_continueNatural? {radix : Nat} (hc : digitValue? c = none)
    (h : continueNatural? radix n s = some k) : c ∉ s := by
  induction s generalizing n with
  | nil => simp
  | cons x s ih =>
    rw [continueNatural?, Option.bind_eq_some_iff] at h
    obtain ⟨d, hd, hs⟩ := h
    have hx : c ≠ x := by
      rintro rfl
      simp [digit?, hc] at hd
    simp [hx, ih hs]

private theorem not_mem_of_natural? {radix : Nat} (hc : digitValue? c = none) (h : natural? radix s = some k) :
    s ≠ [] ∧ c ∉ s := by
  cases s with
  | nil => cases h
  | cons x s => exact ⟨List.cons_ne_nil x s, not_mem_of_continueNatural? hc h⟩

theorem not_mem_of_unsigned? (hc : digitValue? c = none ∧ c ∉ ['x', 'X', 'b', 'B']) (h : unsigned? s = some n) :
    s ≠ [] ∧ c ∉ s := by
  obtain ⟨hc, hmarker⟩ := hc
  have hzero : c ≠ '0' := by
    rintro rfl
    cases hc
  have hletters : c ≠ 'x' ∧ c ≠ 'X' ∧ c ≠ 'b' ∧ c ≠ 'B' := by simpa using hmarker
  unfold unsigned? at h
  split at h
  -- behind a marker there are digits of its radix
  case h_5 => exact not_mem_of_natural? hc h
  all_goals simp [hzero, hletters, (not_mem_of_natural? hc h).2]

end

/-! ### Letter case -/

section

variable {radix n : Nat}

theorem digitValue?_toLower (c : Char) : digitValue? c.toLower = digitValue? c := apply_toLower (by decide) c

private theorem continueNatural?_lower (s : List Char) :
    continueNatural? radix n (lower s) = continueNatural? radix n s := by
  induction s generalizing n with
  | nil => rfl
  | cons c s ih =>
    have hdigit : digit? radix c.toLower = digit? radix c := by rw [digit?, digitValue?_toLower, digit?]
    show (digit? radix c.toLower).bind (fun d => continueNatural? radix (n * radix + d) (lower s)) = _
    rw [hdigit, continueNatural?]
    exact congrArg _ (funext fun d => ih)

theorem natural?_lower (s : List Char) : natural? radix (lower s) = natural? radix s := by
  cases s with
  | nil => rfl
  | cons c s => exact continueNatural?_lower (c :: s)

/-- The letter of a marker in either case. -/
theorem unsigned?_zero (c : Char) (s : List Char) : unsigned? ('0' :: c :: s) =
    if c.toLower = 'x' then natural? 16 s else if c.toLower = 'b' then natural? 2 s
    else natural? 10 ('0' :: c :: s) := by
  have hcapital : ∀ n < 26, (Char.ofNat (97 + n) = 'x' → Char.ofNat (65 + n) = 'X') ∧
      (Char.ofNat (97 + n) = 'b' → Char.ofNat (65 + n) = 'B') := by decide
  unfold unsigned?
  split
  case h_5 hx hX hb hB =>
    have hnot : c.toLower ≠ 'x' ∧ c.toLower ≠ 'b' := by
      obtain h | ⟨n, hn, rfl, h⟩ := toLower_cases c
      · rw [h]
        exact ⟨fun hc => hx s (by rw [hc]), fun hc => hb s (by rw [hc])⟩
      · rw [h]
        exact ⟨fun hc => hX s (by rw [(hcapital n hn).1 hc]), fun hc => hB s (by rw [(hcapital n hn).2 hc])⟩
    rw [if_neg hnot.1, if_neg hnot.2]
  all_goals
    rename_i h
    obtain ⟨rfl, rfl⟩ := List.cons.inj (List.cons.inj h).2
    rfl

theorem unsigned?_of_ne {c : Char} (hc : c ≠ '0') (s : List Char) :
    unsigned? (c :: s) = natural? 10 (c :: s) := by
  unfold unsigned?
  split
  case h_5 => rfl
  all_goals
    rename_i h
    exact absurd (List.cons.inj h).1 hc

theorem unsigned?_lower (s : List Char) : unsigned? (lower s) = unsigned? s := by
  have hdecimal : natural? 10 (lower s) = natural? 10 s := natural?_lower s
  rcases s with _ | ⟨c, s⟩
  · rfl
  · by_cases hc : c = '0'
    · subst hc
      rcases s with _ | ⟨d, s⟩
      · rfl
      · have hsmall : d.toLower.toLower = d.toLower := apply_toLower (f := Char.toLower) (by decide) d
        show unsigned? ('0' :: d.toLower :: lower s) = _
        rw [unsigned?_zero, unsigned?_zero, hsmall, natural?_lower, natural?_lower]
        exact congrArg _ (congrArg _ hdecimal)
    · have hc' : c.toLower ≠ '0' := fun h => hc ((toLower_eq_iff (by decide)).1 h)
      show unsigned? (c.toLower :: lower s) = _
      rw [unsigned?_of_ne hc, unsigned?_of_ne hc']
      exact hdecimal

theorem integer?_lower (s : List Char) : integer? (lower s) = integer? s := by
  rcases s with _ | ⟨c, s⟩
  · rfl
  · by_cases hplus : c = '+'
    · subst hplus
      show integer? ('+' :: lower s) = _
      rw [integer?_plus_cons, integer?_plus_cons, unsigned?_lower]
    · by_cases hminus : c = '-'
      · subst hminus
        show integer? ('-' :: lower s) = _
        rw [integer?_minus_cons, integer?_minus_cons, unsigned?_lower]
      · have hplus' : c.toLower ≠ '+' := fun h => hplus ((toLower_eq_iff (by decide)).1 h)
        have hminus' : c.toLower ≠ '-' := fun h => hminus ((toLower_eq_iff (by decide)).1 h)
        have hunsigned : unsigned? (c.toLower :: lower s) = unsigned? (c :: s) := unsigned?_lower (c :: s)
        show integer? (c.toLower :: lower s) = _
        rw [integer?_of_ne ⟨hplus, hminus⟩, integer?_of_ne ⟨hplus', hminus'⟩, hunsigned]

end

end LongMode.Text

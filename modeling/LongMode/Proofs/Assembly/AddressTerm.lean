import LongMode.Assembly.AddressExpression
import LongMode.Proofs.Outcome
import LongMode.Proofs.Register.Name

/-!
# The terms of an address

What a term of an address is, before it is known whether the address can hold it, and how it may be written: a numeral
in any notation, the name of a cell in any letter case, or both with a star between them, in either order.

* `body_characters`: a written term is not empty and holds no sign.
* `addressRegister_eq_ok`: a register of an address is the name of a cell.
* `part_eq_ok`: reading a written term gives the part with its meaning.  A product by a number that is not a scale has
  no part and is refused.
-/

namespace LongMode

theorem Scale.ofFactor?_eq_some {n : Nat} {s : Scale} : ofFactor? n = some s ↔ n = s.factor := by
  constructor
  · intro h
    have hfactor : (s.factor == n) = true := List.find?_some (p := fun s : Scale => s.factor == n) h
    exact (eq_of_beq hfactor).symm
  · rintro rfl
    cases s <;> rfl

namespace Assembly

/-- A constant, a register, or the product of a register and any number. -/
inductive AddressTerm
  | constant (value : Int)
  | plain (register : Cell)
  | product (register : Cell) (factor : Nat)
  deriving DecidableEq, Repr

/-- How a term is written.  Only a constant can have a minus sign. -/
inductive AddressTerm.IsSpelled : AddressTerm → SumTerm → Prop
  | constant {numeral : List Char} {n : Nat} (hn : Text.unsigned? numeral = some n) (negative : Bool) :
      IsSpelled (.constant (if negative then -n else n)) ⟨negative, numeral⟩
  | plain {name : List Char} {c : Cell} (hc : Text.spells name c.name = true) :
      IsSpelled (.plain c) ⟨false, name⟩
  | factorFirst {numeral name : List Char} {c : Cell} {n : Nat} (hn : Text.unsigned? numeral = some n)
      (hc : Text.spells name c.name = true) :
      IsSpelled (.product c n) ⟨false, numeral ++ '*' :: name⟩
  | registerFirst {numeral name : List Char} {c : Cell} {n : Nat} (hn : Text.unsigned? numeral = some n)
      (hc : Text.spells name c.name = true) :
      IsSpelled (.product c n) ⟨false, name ++ '*' :: numeral⟩

/-- The term that a part stands for. -/
def AddressPart.meaning : AddressPart → AddressTerm
  | constant z => .constant z
  | plain c => .plain c
  | scaled c s => .product c s.factor

section

variable {numeral name left right : List Char} {c : Cell} {n : Nat}

/-! ### Characters -/

private theorem numeral_characters (hn : Text.unsigned? numeral = some n) :
    numeral ≠ [] ∧ '*' ∉ numeral ∧ '+' ∉ numeral ∧ '-' ∉ numeral :=
  ⟨(Text.not_mem_of_unsigned? (c := '*') (by decide) hn).1, (Text.not_mem_of_unsigned? (by decide) hn).2,
    (Text.not_mem_of_unsigned? (by decide) hn).2, (Text.not_mem_of_unsigned? (by decide) hn).2⟩

private theorem name_characters (hc : Text.spells name c.name = true) :
    name ≠ [] ∧ '*' ∉ name ∧ '+' ∉ name ∧ '-' ∉ name :=
  ⟨(Cell.not_mem_of_spells hc (x := '*') (by decide)).1, (Cell.not_mem_of_spells hc (by decide)).2,
    (Cell.not_mem_of_spells hc (by decide)).2, (Cell.not_mem_of_spells hc (by decide)).2⟩

theorem AddressTerm.IsSpelled.body_characters {t : AddressTerm} {s : SumTerm} (h : t.IsSpelled s) :
    s.body ≠ [] ∧ ∀ x ∈ s.body, isSign x = false := by
  have hsign {l : List Char} (hplus : '+' ∉ l) (hminus : '-' ∉ l) : ∀ x ∈ l, isSign x = false := by
    intro x hx
    rw [isSign, Bool.or_eq_false_iff, beq_eq_false_iff_ne, beq_eq_false_iff_ne]
    exact ⟨ne_of_mem_of_not_mem hx hplus, ne_of_mem_of_not_mem hx hminus⟩
  cases h with
  | constant hn _ =>
    obtain ⟨hne, -, hplus, hminus⟩ := numeral_characters hn
    exact ⟨hne, hsign hplus hminus⟩
  | plain hc =>
    obtain ⟨hne, -, hplus, hminus⟩ := name_characters hc
    exact ⟨hne, hsign hplus hminus⟩
  | factorFirst hn hc =>
    obtain ⟨-, -, hplus, hminus⟩ := numeral_characters hn
    obtain ⟨-, -, hplus', hminus'⟩ := name_characters hc
    exact ⟨by simp, hsign (by simp [hplus, hplus']) (by simp [hminus, hminus'])⟩
  | registerFirst hn hc =>
    obtain ⟨-, -, hplus, hminus⟩ := numeral_characters hn
    obtain ⟨-, -, hplus', hminus'⟩ := name_characters hc
    exact ⟨by simp, hsign (by simp [hplus, hplus']) (by simp [hminus, hminus'])⟩

/-! ### Reading a term -/

theorem addressRegister_eq_ok : addressRegister name = .ok c ↔ Text.spells name c.name = true := by
  constructor
  · intro h
    unfold addressRegister at h
    split at h
    · split at h
      · rename_i hview
        cases h
        exact View.ofName?_eq_some.1 hview
      · cases h
      · split at h <;> cases h
    · cases h
  · intro hc
    have hview : View.ofName? name = some (.low c .qword) := View.ofName?_eq_some.2 hc
    rw [addressRegister, if_pos (Cell.isIdentifier_of_spells hc), hview]

private theorem part_of_numeral (hn : Text.unsigned? numeral = some n) (negative : Bool) :
    SumTerm.part ⟨negative, numeral⟩ = .ok (.constant (if negative then -n else n)) := by
  have hcount : numeral.count '*' = 0 := List.count_eq_zero.2 (numeral_characters hn).2.1
  simp only [SumTerm.part, hcount, simplePart, hn]

private theorem part_of_name (hc : Text.spells name c.name = true) : SumTerm.part ⟨false, name⟩ = .ok (.plain c) := by
  have hcount : name.count '*' = 0 := List.count_eq_zero.2 (name_characters hc).2.1
  simp [SumTerm.part, hcount, simplePart, Cell.unsigned?_of_spells hc, addressRegister_eq_ok.2 hc]

/-- The one star of a product separates its sides. -/
private theorem sides_of_product (hleft : '*' ∉ left) (hright : '*' ∉ right) :
    (left ++ '*' :: right).count '*' = 1 ∧ (left ++ '*' :: right).takeWhile (fun x => x != '*') = left ∧
      (left ++ '*' :: right).dropWhile (fun x => x != '*') = '*' :: right := by
  have hbefore : ∀ x ∈ left, (x != '*') = true := fun x hx => bne_iff_ne.2 (ne_of_mem_of_not_mem hx hleft)
  refine ⟨?_, ?_, ?_⟩
  · rw [List.count_append, List.count_eq_zero.2 hleft, List.count_cons_self, List.count_eq_zero.2 hright]
  · rw [List.takeWhile_append_of_pos hbefore]
    simp
  · rw [List.dropWhile_append_of_pos hbefore]
    simp

/-- A product is read by its numeral, on either side of the star. -/
private theorem part_of_product (hn : Text.unsigned? numeral = some n) (hc : Text.spells name c.name = true)
    {body : List Char} (h : body = numeral ++ '*' :: name ∨ body = name ++ '*' :: numeral) :
    SumTerm.part ⟨false, body⟩ =
      match Scale.ofFactor? n with
      | some s => .ok (.scaled c s)
      | none => .error ⟨.badScale n, numeral⟩ := by
  have hnumeral := (numeral_characters hn).2.1
  have hname := (name_characters hc).2.1
  have hnone := Cell.unsigned?_of_spells hc
  rcases h with rfl | rfl
  · obtain ⟨hcount, htake, hdrop⟩ := sides_of_product hnumeral hname
    cases hs : Scale.ofFactor? n <;>
      simp [SumTerm.part, hcount, productPart, htake, hdrop, hn, hs, addressRegister_eq_ok.2 hc]
  · obtain ⟨hcount, htake, hdrop⟩ := sides_of_product hname hnumeral
    cases hs : Scale.ofFactor? n <;>
      simp [SumTerm.part, hcount, productPart, htake, hdrop, hnone, hn, hs, addressRegister_eq_ok.2 hc]

theorem AddressTerm.IsSpelled.part_eq_ok {t : AddressTerm} {s : SumTerm} (h : t.IsSpelled s) {p : AddressPart} :
    s.part = .ok p ↔ t = p.meaning := by
  have hproduct {c : Cell} {n : Nat} {numeral : List Char} : (match Scale.ofFactor? n with
      | some s => Except.ok (AddressPart.scaled c s)
      | none => .error (⟨.badScale n, numeral⟩ : Complaint)) = .ok p ↔ AddressTerm.product c n = p.meaning := by
    cases hs : Scale.ofFactor? n with
    | some s =>
      have hn : n = s.factor := Scale.ofFactor?_eq_some.1 hs
      cases p with
      | scaled c' s' =>
        have hs' : s = s' ↔ n = s'.factor := by rw [← Scale.ofFactor?_eq_some, hs, Option.some.injEq]
        simp [AddressPart.meaning, hs']
      | constant _ | plain _ => simp [AddressPart.meaning]
    | none =>
      have hn : ∀ s : Scale, n ≠ s.factor := fun s hn => by simp [Scale.ofFactor?_eq_some.2 hn] at hs
      cases p <;> simp [AddressPart.meaning, hn]
  cases h with
  | constant hn negative =>
    rw [part_of_numeral hn]
    cases p <;> simp [AddressPart.meaning]
  | plain hc =>
    rw [part_of_name hc]
    cases p <;> simp [AddressPart.meaning]
  | factorFirst hn hc =>
    rw [part_of_product hn hc (.inl rfl), hproduct]
  | registerFirst hn hc =>
    rw [part_of_product hn hc (.inr rfl), hproduct]

end

end Assembly

end LongMode

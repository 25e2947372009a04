import Mathlib.Data.List.Forall2
import LongMode.Assembly.OperandText
import LongMode.Execution.Semantics
import LongMode.Proofs.Assembly.AddressText

/-!
# An address means its sum

A memory operand in brackets is read as the sum of its terms or refused, and a rule that does not look at the order of
the terms says which.

* `IsAddress`: the rule.
* `exists_addressOfParts`: the parts that are read make an address just when their terms follow the rule.
* `sum_addressOfParts`: the address has the sum of the parts, although registers may change places.
* `readAddress_sum` and `readMemory_sum`: both, for every text that spells the terms.
-/

namespace LongMode

/-- What an address adds up to, before it is reduced to 64 bits. -/
def Address.sum (r : Cell → Nat) (a : Address) : Int :=
  a.displacement + ((a.base.map r).getD 0 : Nat) + ((a.index.map fun c => r c * a.scale.factor).getD 0 : Nat)

namespace Assembly

namespace AddressTerm

def value (r : Cell → Nat) : AddressTerm → Int
  | constant z => z
  | plain c => r c
  | product c n => r c * n

def register? : AddressTerm → Option Cell
  | constant _ => none
  | plain c => some c
  | product c _ => some c

def isProduct : AddressTerm → Bool
  | product _ _ => true
  | _ => false

/-- A product is by 1, 2, 4 or 8. -/
def HasScale : AddressTerm → Prop
  | product _ n => n ∈ [1, 2, 4, 8]
  | _ => True

/-- A constant, or a register that is not scaled. -/
def IsAnchor : AddressTerm → Prop
  | product _ n => n = 1
  | _ => True

def ScalesStackPointer : AddressTerm → Prop
  | product c n => c = .rsp ∧ 1 < n
  | _ => False

instance : (t : AddressTerm) → Decidable t.HasScale
  | constant _ | plain _ => .isTrue trivial
  | product _ n => inferInstanceAs (Decidable (n ∈ [1, 2, 4, 8]))

instance : (t : AddressTerm) → Decidable t.IsAnchor
  | constant _ | plain _ => .isTrue trivial
  | product _ n => inferInstanceAs (Decidable (n = 1))

instance : (t : AddressTerm) → Decidable t.ScalesStackPointer
  | constant _ | plain _ => .isFalse id
  | product c n => inferInstanceAs (Decidable (c = .rsp ∧ 1 < n))

end AddressTerm

/-- The terms that a memory operand can hold. -/
structure IsAddress (terms : List AddressTerm) : Prop where
  hasScale : ∀ t ∈ terms, t.HasScale
  products_le : terms.countP AddressTerm.isProduct ≤ 1
  registers_le : (terms.filterMap AddressTerm.register?).length ≤ 2
  anchored : ∃ t ∈ terms, t.IsAnchor
  stackPointer_unscaled : ∀ t ∈ terms, ¬t.ScalesStackPointer
  stackPointer_once : (terms.filterMap AddressTerm.register?).count .rsp ≤ 1

instance (terms : List AddressTerm) : Decidable (IsAddress terms) :=
  decidable_of_iff
    ((∀ t ∈ terms, t.HasScale) ∧ terms.countP AddressTerm.isProduct ≤ 1 ∧
      (terms.filterMap AddressTerm.register?).length ≤ 2 ∧ (∃ t ∈ terms, t.IsAnchor) ∧
      (∀ t ∈ terms, ¬t.ScalesStackPointer) ∧ (terms.filterMap AddressTerm.register?).count .rsp ≤ 1)
    ⟨fun ⟨h₁, h₂, h₃, h₄, h₅, h₆⟩ => ⟨h₁, h₂, h₃, h₄, h₅, h₆⟩,
      fun ⟨h₁, h₂, h₃, h₄, h₅, h₆⟩ => ⟨h₁, h₂, h₃, h₄, h₅, h₆⟩⟩

/-- The rule does not look at the order of the terms. -/
theorem IsAddress.perm {terms terms' : List AddressTerm} (h : IsAddress terms) (hp : terms.Perm terms') :
    IsAddress terms' where
  hasScale t ht := h.hasScale t (hp.mem_iff.2 ht)
  products_le := by
    rw [← hp.countP_eq]
    exact h.products_le
  registers_le := by
    rw [← (hp.filterMap AddressTerm.register?).length_eq]
    exact h.registers_le
  anchored := by
    obtain ⟨t, ht, hanchor⟩ := h.anchored
    exact ⟨t, hp.mem_iff.1 ht, hanchor⟩
  stackPointer_unscaled t ht := h.stackPointer_unscaled t (hp.mem_iff.2 ht)
  stackPointer_once := by
    rw [← (hp.filterMap AddressTerm.register?).count_eq]
    exact h.stackPointer_once

/-! ### Parts by kind -/

section

variable {parts : List AddressPart}

private theorem hasScale_meaning (p : AddressPart) : p.meaning.HasScale := by
  cases p with
  | scaled c s => cases s <;> simp [AddressPart.meaning, AddressTerm.HasScale, Scale.factor]
  | constant z => trivial
  | plain c => trivial

private theorem countP_isProduct (parts : List AddressPart) :
    (parts.map AddressPart.meaning).countP AddressTerm.isProduct = (scaledRegisters parts).length := by
  induction parts with
  | nil => rfl
  | cons p rest ih =>
    rw [List.map_cons, List.countP_cons, ih]
    cases p <;> simp [scaledRegisters, AddressPart.meaning, AddressTerm.isProduct]

/-- The registers of an address are the plain ones and the scaled ones. -/
private theorem registers_perm (parts : List AddressPart) :
    ((parts.map AddressPart.meaning).filterMap AddressTerm.register?).Perm
      (plainRegisters parts ++ (scaledRegisters parts).map Prod.fst) := by
  induction parts with
  | nil => exact .nil
  | cons p rest ih =>
    cases p with
    | constant z => exact ih
    | plain c => exact ih.cons c
    | scaled c s => exact (ih.cons c).trans List.perm_middle.symm

private theorem exists_isAnchor : (∃ t ∈ parts.map AddressPart.meaning, t.IsAnchor) ↔
    constants parts ≠ [] ∨ plainRegisters parts ≠ [] ∨ ∃ c, (c, Scale.one) ∈ scaledRegisters parts := by
  constructor
  · rintro ⟨t, ht, hanchor⟩
    obtain ⟨p, hp, rfl⟩ := List.mem_map.1 ht
    cases p with
    | constant z => exact .inl (List.ne_nil_of_mem (mem_constants.2 hp))
    | plain c => exact .inr (.inl (List.ne_nil_of_mem (mem_plainRegisters.2 hp)))
    | scaled c s =>
      cases s with
      | one => exact .inr (.inr ⟨c, mem_scaledRegisters.2 hp⟩)
      | two | four | eight => cases hanchor
  · rintro (h | h | ⟨c, h⟩)
    · obtain ⟨z, hz⟩ := List.exists_mem_of_ne_nil _ h
      exact ⟨_, List.mem_map_of_mem (mem_constants.1 hz), trivial⟩
    · obtain ⟨c, hc⟩ := List.exists_mem_of_ne_nil _ h
      exact ⟨_, List.mem_map_of_mem (mem_plainRegisters.1 hc), trivial⟩
    · exact ⟨_, List.mem_map_of_mem (mem_scaledRegisters.1 h), rfl⟩

private theorem forall_not_scalesStackPointer : (∀ t ∈ parts.map AddressPart.meaning, ¬t.ScalesStackPointer) ↔
    ∀ s, (Cell.rsp, s) ∈ scaledRegisters parts → s = .one := by
  have hone (s : Scale) : ¬1 < s.factor ↔ s = .one := by cases s <;> simp [Scale.factor]
  constructor
  · intro h s hs
    rw [← hone]
    exact fun hlt => h _ (List.mem_map_of_mem (mem_scaledRegisters.1 hs)) ⟨rfl, hlt⟩
  · intro h t ht hscales
    obtain ⟨p, hp, rfl⟩ := List.mem_map.1 ht
    cases p with
    | constant z => exact hscales
    | plain c => exact hscales
    | scaled c s =>
      obtain ⟨rfl, hlt⟩ := hscales
      exact (hone s).2 (h s (mem_scaledRegisters.2 hp)) hlt

private theorem sum_value (r : Cell → Nat) (parts : List AddressPart) :
    ((parts.map AddressPart.meaning).map (AddressTerm.value r)).sum = (constants parts).sum +
      ((plainRegisters parts).map fun c => (r c : Int)).sum +
      ((scaledRegisters parts).map fun x => (r x.1 * x.2.factor : Int)).sum := by
  induction parts with
  | nil => rfl
  | cons p rest ih =>
    rw [List.map_cons, List.map_cons, List.sum_cons, ih]
    cases p with
    | constant z =>
      simp [AddressPart.meaning, AddressTerm.value, constants, plainRegisters, scaledRegisters]
      omega
    | plain c =>
      simp [AddressPart.meaning, AddressTerm.value, constants, plainRegisters, scaledRegisters]
      omega
    | scaled c s =>
      simp [AddressPart.meaning, AddressTerm.value, constants, plainRegisters, scaledRegisters]
      omega

private theorem isAddress_meaning : IsAddress (parts.map AddressPart.meaning) ↔
    ((scaledRegisters parts).length ≤ 1 ∧ (plainRegisters parts).length + (scaledRegisters parts).length ≤ 2) ∧
      (constants parts ≠ [] ∨ plainRegisters parts ≠ [] ∨ ∃ c, (c, Scale.one) ∈ scaledRegisters parts) ∧
      (∀ s, (Cell.rsp, s) ∈ scaledRegisters parts → s = .one) ∧
      (plainRegisters parts ++ (scaledRegisters parts).map Prod.fst).count .rsp ≤ 1 := by
  have hperm := registers_perm parts
  have hlength := hperm.length_eq
  rw [List.length_append, List.length_map] at hlength
  rw [← exists_isAnchor, ← forall_not_scalesStackPointer, ← hperm.count_eq, ← hlength, ← countP_isProduct]
  constructor
  · exact fun h => ⟨⟨h.products_le, h.registers_le⟩, h.anchored, h.stackPointer_unscaled, h.stackPointer_once⟩
  · rintro ⟨⟨hproducts, hregisters⟩, hanchored, hunscaled, honce⟩
    refine ⟨fun t ht => ?_, hproducts, hregisters, hanchored, hunscaled, honce⟩
    obtain ⟨p, -, rfl⟩ := List.mem_map.1 ht
    exact hasScale_meaning p

/-! ### The sum of the parts -/

/-- The stack pointer may stand in one of two places. -/
private theorem count_pair_le {b d : Cell} : [b, d].count .rsp ≤ 1 ↔ (d = .rsp → b ≠ .rsp) := by
  by_cases hb : b = .rsp <;> by_cases hd : d = .rsp <;> simp [hb, hd]

theorem exists_addressOfParts (operand : List Char) :
    (∃ a, addressOfParts operand parts = .ok a) ↔ IsAddress (parts.map AddressPart.meaning) := by
  rw [isAddress_meaning]
  obtain ⟨base, index, scale, h⟩ : ∃ base index scale,
    baseAndIndex (plainRegisters parts) (scaledRegisters parts) = (base, index, scale) := ⟨_, _, _, rfl⟩
  simp only [addressOfParts_eq_ok h, exists_and_left, exists_eq, and_true]
  refine and_congr_right fun hle => ?_
  have hsingle (c : Cell) : [c].count .rsp ≤ 1 := List.count_le_length
  obtain ⟨hscaled, hplain, hnone, rfl⟩ | ⟨c, hscaled, hplain, rfl, rfl, rfl⟩ | ⟨c, hscaled, hplain, rfl, hone⟩ :=
    baseAndIndex_cases hle h
  · rw [hscaled, hplain]
    cases base with
    | none => simp [hnone rfl]
    | some b => cases index <;> simp [hsingle, count_pair_le]
  · rw [hscaled, hplain]
    simp [hsingle]
  · rw [hscaled, hplain]
    cases base with
    | none => simp [hsingle, hone rfl, Ne.symm (hone rfl), @eq_comm _ Cell.rsp c]
    | some b => simp [count_pair_le, @eq_comm _ Cell.rsp c, imp_and]

private theorem sum_baseAndIndex (r : Cell → Nat) {plain : List Cell} {scaled : List (Cell × Scale)}
    {base index : Option Cell} {scale : Scale} (hle : scaled.length ≤ 1 ∧ plain.length + scaled.length ≤ 2)
    (h : baseAndIndex plain scaled = (base, index, scale)) (z : Int) :
    Address.sum r ⟨base, index, scale, z⟩ =
      z + (plain.map fun c => (r c : Int)).sum + (scaled.map fun x => (r x.1 * x.2.factor : Int)).sum := by
  obtain ⟨rfl, rfl, -, rfl⟩ | ⟨c, rfl, rfl, rfl, rfl, rfl⟩ | ⟨c, rfl, rfl, rfl, -⟩ := baseAndIndex_cases hle h
  · cases base <;> cases index <;> simp [Address.sum, Scale.factor, Int.add_assoc]
  · simp [Address.sum, Scale.factor]
  · cases base <;> simp [Address.sum]

/-- Without a factor, base and index may change places. -/
private theorem sum_swap (r : Cell → Nat) (base index : Option Cell) (z : Int) :
    Address.sum r ⟨index, base, .one, z⟩ = Address.sum r ⟨base, index, .one, z⟩ := by
  cases base <;> cases index <;> simp [Address.sum, Scale.factor]
  omega

theorem sum_addressOfParts {operand : List Char} {a : Address} (h : addressOfParts operand parts = .ok a)
    (r : Cell → Nat) : a.sum r = ((parts.map AddressPart.meaning).map (AddressTerm.value r)).sum := by
  obtain ⟨base, index, scale, hregisters⟩ : ∃ base index scale,
    baseAndIndex (plainRegisters parts) (scaledRegisters parts) = (base, index, scale) := ⟨_, _, _, rfl⟩
  obtain ⟨hle, -, hindex, rfl⟩ := (addressOfParts_eq_ok hregisters).1 h
  have hsum := sum_baseAndIndex r hle hregisters (constants parts).sum
  rw [sum_value, ← hsum]
  split
  · rename_i hrsp
    rw [(hindex hrsp).1]
    exact sum_swap r base index (constants parts).sum
  · rfl

end

/-! ### The text of a sum -/

/-- The text spells the terms one after the other, with white space anywhere.  A constant has one sign, which also joins
it to the term before it; the first plus sign may be left out. -/
def IsSumText (terms : List AddressTerm) (text : List Char) : Prop :=
  ∃ spelled, List.Forall₂ AddressTerm.IsSpelled terms spelled ∧
    (Text.withoutBlanks text = sumText spelled ∨ Text.withoutBlanks text = spelled.flatMap SumTerm.text)

def inBrackets (inner : List Char) : List Char := '[' :: (inner ++ [']'])

section

variable {terms : List AddressTerm} {spelled : List SumTerm} {inner operand : List Char}

private theorem mapM_part (h : List.Forall₂ AddressTerm.IsSpelled terms spelled) {parts : List AddressPart} :
    spelled.mapM SumTerm.part = .ok parts ↔ terms = parts.map AddressPart.meaning := by
  rw [mapM_eq_ok]
  induction h generalizing parts with
  | nil => cases parts <;> simp
  | cons ht _ ih => cases parts <;> simp [ht.part_eq_ok, ih]

private theorem body_characters_of_mem (h : List.Forall₂ AddressTerm.IsSpelled terms spelled) :
    ∀ s ∈ spelled, s.body ≠ [] ∧ ∀ x ∈ s.body, isSign x = false := by
  induction h with
  | nil => simp
  | cons ht _ ih => exact List.forall_mem_cons.2 ⟨ht.body_characters, ih⟩

private theorem exists_parts (h : ∀ t ∈ terms, t.HasScale) :
    ∃ parts : List AddressPart, terms = parts.map AddressPart.meaning := by
  have hpart (t : AddressTerm) (ht : t.HasScale) : ∃ p : AddressPart, t = p.meaning := by
    cases t with
    | constant z => exact ⟨.constant z, rfl⟩
    | plain c => exact ⟨.plain c, rfl⟩
    | product c n =>
      have hn : n = 1 ∨ n = 2 ∨ n = 4 ∨ n = 8 := by simpa [AddressTerm.HasScale] using ht
      rcases hn with rfl | rfl | rfl | rfl
      · exact ⟨.scaled c .one, rfl⟩
      · exact ⟨.scaled c .two, rfl⟩
      · exact ⟨.scaled c .four, rfl⟩
      · exact ⟨.scaled c .eight, rfl⟩
  induction terms with
  | nil => exact ⟨[], rfl⟩
  | cons t rest ih =>
    obtain ⟨p, rfl⟩ := hpart t (h t List.mem_cons_self)
    obtain ⟨parts, rfl⟩ := ih fun t ht => h t (List.mem_cons_of_mem _ ht)
    exact ⟨p :: parts, rfl⟩

private theorem readAddress_eq_ok (hne : terms ≠ []) (h : IsSumText terms inner) {a : Address} :
    readAddress operand inner = .ok a ↔
      ∃ parts, terms = parts.map AddressPart.meaning ∧ addressOfParts operand parts = .ok a := by
  obtain ⟨spelled, hspelled, htext⟩ := h
  have hbodies := body_characters_of_mem hspelled
  have hne' : spelled ≠ [] := by
    rintro rfl
    cases hspelled
    exact hne rfl
  have hterms : sumTerms? (Text.withoutBlanks inner) = some spelled := by
    rcases htext with htext | htext
    · rw [htext, sumTerms?_sumText hne' hbodies]
    · rw [htext, sumTerms?_flatMap hne' hbodies]
  rw [readAddress, hterms]
  dsimp only
  rw [bind_eq_ok]
  simp only [mapM_part hspelled]

/-- The sum of the terms is what is read, and the rule says when. -/
theorem readAddress_sum (operand : List Char) (hne : terms ≠ []) (h : IsSumText terms inner) :
    ((∃ a, readAddress operand inner = .ok a) ↔ IsAddress terms) ∧
      ∀ a, readAddress operand inner = .ok a → ∀ r, a.sum r = (terms.map (AddressTerm.value r)).sum := by
  simp only [readAddress_eq_ok hne h]
  constructor
  · constructor
    · rintro ⟨a, parts, rfl, ha⟩
      exact (exists_addressOfParts operand).1 ⟨a, ha⟩
    · intro hterms
      obtain ⟨parts, rfl⟩ := exists_parts hterms.hasScale
      obtain ⟨a, ha⟩ := (exists_addressOfParts operand).2 hterms
      exact ⟨a, parts, rfl, ha⟩
  · rintro a ⟨parts, rfl, ha⟩ r
    exact sum_addressOfParts ha r

private theorem readMemory_inBrackets (inner : List Char) :
    readMemory (inBrackets inner) = (readAddress (inBrackets inner) inner).map fun a => .memory a none := by
  have hsize : leadingSize (inBrackets inner) = (none, inBrackets inner) := rfl
  have hinside : insideBrackets? (inBrackets inner) = some inner := by simp [inBrackets, insideBrackets?]
  rw [readMemory, hsize]
  simp only [hinside]

private theorem exists_readMemory_inBrackets :
    (∃ o, readMemory (inBrackets inner) = .ok o) ↔ ∃ a, readAddress (inBrackets inner) inner = .ok a := by
  rw [readMemory_inBrackets]
  cases readAddress (inBrackets inner) inner <;> simp [Except.map]

/-- A sum of terms in brackets is accepted if and only if `IsAddress` holds of the terms, in whatever order they stand,
and the operand that is read has the sum of the terms modulo `2 ^ 64` as its effective address. -/
theorem readMemory_sum (hne : terms ≠ []) (h : IsSumText terms inner) :
    ((∃ o, readMemory (inBrackets inner) = .ok o) ↔ IsAddress terms) ∧
      (∀ terms' inner', terms'.Perm terms → IsSumText terms' inner' →
        ((∃ o, readMemory (inBrackets inner') = .ok o) ↔ ∃ o, readMemory (inBrackets inner) = .ok o)) ∧
      ∀ o, readMemory (inBrackets inner) = .ok o → ∃ a, o = .memory a none ∧
        ∀ t : Transaction, (t.effectiveAddress a : Int) = (terms.map (AddressTerm.value t.cell)).sum % 2 ^ 64 := by
  obtain ⟨haccepted, hsum⟩ := readAddress_sum (inBrackets inner) hne h
  refine ⟨exists_readMemory_inBrackets.trans haccepted, ?_, ?_⟩
  · intro terms' inner' hperm h'
    have hne' : terms' ≠ [] := fun hnil => hne (by simpa [hnil] using hperm)
    obtain ⟨haccepted', -⟩ := readAddress_sum (inBrackets inner') hne' h'
    rw [exists_readMemory_inBrackets, exists_readMemory_inBrackets, haccepted, haccepted']
    exact ⟨fun hterms => hterms.perm hperm, fun hterms => hterms.perm hperm.symm⟩
  · intro o ho
    rw [readMemory_inBrackets, map_eq_ok] at ho
    obtain ⟨a, ha, rfl⟩ := ho
    refine ⟨a, rfl, fun t => ?_⟩
    rw [← hsum a ha]
    exact Int.toNat_of_nonneg (Int.emod_nonneg _ (by decide))

/-- The stack pointer is written in the place of the index, and becomes the base. -/
theorem readMemory_sum_stack_pointer :
    [AddressTerm.plain .rbp, .product .rsp 1, .constant (-16)] ≠ [] ∧
      IsSumText [.plain .rbp, .product .rsp 1, .constant (-16)] " rbp + RSP*1 - 0x10 ".toList ∧
        ∃ a, readMemory (inBrackets " rbp + RSP*1 - 0x10 ".toList) = .ok (.memory a none) ∧
          ∀ t : Transaction, (t.effectiveAddress a : Int) = (t.cell .rbp + t.cell .rsp - 16) % 2 ^ 64 := by
  have hne : [AddressTerm.plain .rbp, .product .rsp 1, .constant (-16)] ≠ [] := by decide
  have htext : IsSumText [.plain .rbp, .product .rsp 1, .constant (-16)] " rbp + RSP*1 - 0x10 ".toList := by
    have hbase : (AddressTerm.plain .rbp).IsSpelled ⟨false, "rbp".toList⟩ := .plain (by decide)
    have hindex : (AddressTerm.product .rsp 1).IsSpelled ⟨false, "RSP".toList ++ '*' :: "1".toList⟩ :=
      .registerFirst (by decide) (by decide)
    have hconstant : (AddressTerm.constant (-16)).IsSpelled ⟨true, "0x10".toList⟩ :=
      AddressTerm.IsSpelled.constant (n := 16) (by decide) true
    exact ⟨_, .cons hbase (.cons hindex (.cons hconstant .nil)), .inl (by decide)⟩
  obtain ⟨haccepted, -, hsum⟩ := readMemory_sum hne htext
  obtain ⟨o, ho⟩ := haccepted.2 (by decide)
  obtain ⟨a, rfl, haddress⟩ := hsum o ho
  refine ⟨hne, htext, a, ho, fun t => ?_⟩
  rw [haddress]
  simp [AddressTerm.value, Int.add_assoc, Int.sub_eq_add_neg]

end

end Assembly

end LongMode

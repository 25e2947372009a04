import LongMode.Assembly.Line
import LongMode.Proofs.Outcome

/-!
# The shape of instructions that are read

Not every instruction is the reading of some text.  One that is has these properties (`Instruction.WellFormed`,
`parse_wellFormed`):

* its mnemonic takes that number of operands;
* an address without an index has scale one, an index alone is scaled by more than one, and rsp is no index;
* an immediate has 8 bits as the count of a shift, 64 bits in a push, and else the bits of the first operand;
* only a push has an immediate first.

`addressOfParts_eq_ok` says once which parts make an address, and `baseAndIndex_cases` what becomes of their registers.
`readOperand_cases` says what an operand may be read as.
-/

namespace LongMode

/-- What reading establishes of an address. -/
structure Address.WellFormed (a : Address) : Prop where
  index_ne : a.index ≠ some .rsp
  scale_eq : a.index = none → a.scale = .one
  scale_ne : a.base = none → a.index ≠ none → a.scale ≠ .one

/-- The bits that an immediate at a position has beside the given first operand. -/
def Mnemonic.immediateBits (m : Mnemonic) (position : Nat) (first : Operand) : Nat :=
  if m.isShift ∧ position = 1 then 8 else if m = .push then 64 else first.bits

/-- What reading establishes of an instruction. -/
structure Instruction.WellFormed (i : Instruction) : Prop where
  count : i.operands.length ∈ i.mnemonic.operandCounts
  address : ∀ l, .memory l ∈ i.operands → l.address.WellFormed
  immediate : ∀ k z n first, i.operands[k]? = some (.immediate z n) → i.operands[0]? = some first →
    n = i.mnemonic.immediateBits k first
  first : ∀ z n, i.operands[0]? = some (.immediate z n) → i.mnemonic = .push

theorem Instruction.WellFormed.count_bits {m : Mnemonic} {d s : Operand} (hi : (Instruction.mk m [d, s]).WellFormed)
    (hm : m.isShift = true) : ∀ z n, s = .immediate z n → n = 8 := by
  intro z n hs
  have hn := hi.immediate 1 z n d (by simp [hs]) rfl
  rwa [Mnemonic.immediateBits, if_pos ⟨hm, rfl⟩] at hn

namespace Assembly

/-! ### Addresses -/

section

variable {parts : List AddressPart}

theorem mem_constants {z : Int} : z ∈ constants parts ↔ .constant z ∈ parts := by
  rw [constants, List.mem_filterMap]
  constructor
  · rintro ⟨p, hp, h⟩
    cases p <;> cases h
    exact hp
  · exact fun h => ⟨_, h, rfl⟩

theorem mem_plainRegisters {c : Cell} : c ∈ plainRegisters parts ↔ .plain c ∈ parts := by
  rw [plainRegisters, List.mem_filterMap]
  constructor
  · rintro ⟨p, hp, h⟩
    cases p <;> cases h
    exact hp
  · exact fun h => ⟨_, h, rfl⟩

theorem mem_scaledRegisters {c : Cell} {s : Scale} : (c, s) ∈ scaledRegisters parts ↔ .scaled c s ∈ parts := by
  rw [scaledRegisters, List.mem_filterMap]
  constructor
  · rintro ⟨p, hp, h⟩
    cases p <;> cases h
    exact hp
  · exact fun h => ⟨_, h, rfl⟩

end

/-- When parts make an address, and which. -/
theorem addressOfParts_eq_ok {operand : List Char} {parts : List AddressPart} {a : Address}
    {base index : Option Cell} {scale : Scale}
    (h : baseAndIndex (plainRegisters parts) (scaledRegisters parts) = (base, index, scale)) :
    addressOfParts operand parts = .ok a ↔
      ((scaledRegisters parts).length ≤ 1 ∧ (plainRegisters parts).length + (scaledRegisters parts).length ≤ 2) ∧
        (base = none → constants parts ≠ []) ∧
        (index = some .rsp → scale = .one ∧ base ≠ some .rsp) ∧
        a = if index = some .rsp then ⟨index, base, scale, (constants parts).sum⟩
          else ⟨base, index, scale, (constants parts).sum⟩ := by
  unfold addressOfParts
  dsimp only
  rw [h]
  dsimp only
  have hcount : ¬(1 < (scaledRegisters parts).length ∨
      2 < (plainRegisters parts).length + (scaledRegisters parts).length) ↔
      (scaledRegisters parts).length ≤ 1 ∧ (plainRegisters parts).length + (scaledRegisters parts).length ≤ 2 := by
    omega
  rw [ite_error_eq_ok, ite_error_eq_ok, hcount, not_and]
  refine and_congr_right fun _ => and_congr_right fun _ => ?_
  by_cases hindex : index = some .rsp
  · rw [if_pos hindex, if_pos hindex]
    by_cases hone : scale = .one ∧ base ≠ some .rsp
    · rw [if_pos hone, Except.ok.injEq]
      exact ⟨fun ha => ⟨fun _ => hone, ha.symm⟩, fun ha => ha.2.symm⟩
    · rw [if_neg hone]
      exact ⟨fun ha => (by cases ha), fun ha => absurd (ha.1 hindex) hone⟩
  · rw [if_neg hindex, if_neg hindex, Except.ok.injEq]
    exact ⟨fun ha => ⟨fun hi => absurd hi hindex, ha.symm⟩, fun ha => ha.2.symm⟩

/-- Without a product the plain registers are base and index.  A product by one alone is the base.  Any other product is
the index. -/
theorem baseAndIndex_cases {plain : List Cell} {scaled : List (Cell × Scale)} {base index : Option Cell}
    {scale : Scale} (hle : scaled.length ≤ 1 ∧ plain.length + scaled.length ≤ 2)
    (h : baseAndIndex plain scaled = (base, index, scale)) :
    (scaled = [] ∧ plain = base.toList ++ index.toList ∧ (base = none → index = none) ∧ scale = .one) ∨
      (∃ c, scaled = [(c, .one)] ∧ plain = [] ∧ base = some c ∧ index = none ∧ scale = .one) ∨
        ∃ c, scaled = [(c, scale)] ∧ plain = base.toList ∧ index = some c ∧ (base = none → scale ≠ .one) := by
  obtain ⟨hscaled, hall⟩ := hle
  rcases scaled with _ | ⟨⟨c, s⟩, _ | ⟨x, scaled⟩⟩
  · left
    rcases plain with _ | ⟨b, _ | ⟨d, _ | ⟨x, plain⟩⟩⟩
    · cases h
      simp
    · cases h
      simp
    · cases h
      simp
    · simp at hall
  · right
    rcases plain with _ | ⟨b, _ | ⟨d, plain⟩⟩
    · cases s with
      | one =>
        cases h
        exact .inl ⟨c, rfl, rfl, rfl, rfl, rfl⟩
      | two | four | eight =>
        cases h
        exact .inr ⟨c, rfl, rfl, rfl, by simp⟩
    · cases h
      exact .inr ⟨c, rfl, rfl, rfl, by simp⟩
    · simp at hall
  · simp at hscaled

theorem addressOfParts_wellFormed {operand : List Char} {parts : List AddressPart} {a : Address}
    (h : addressOfParts operand parts = .ok a) : a.WellFormed := by
  obtain ⟨base, index, scale, hregisters⟩ : ∃ base index scale,
    baseAndIndex (plainRegisters parts) (scaledRegisters parts) = (base, index, scale) := ⟨_, _, _, rfl⟩
  obtain ⟨hle, -, hswap, rfl⟩ := (addressOfParts_eq_ok hregisters).1 h
  by_cases hindex : index = some .rsp
  -- rsp as the index was exchanged for the base, which is allowed at factor one only
  · obtain ⟨hone, hbase⟩ := hswap hindex
    rw [if_pos hindex]
    exact ⟨hbase, fun _ => hone, fun hnone => by simp [hindex] at hnone⟩
  · rw [if_neg hindex]
    obtain ⟨-, -, hnone, hone⟩ | ⟨c, -, -, rfl, rfl, rfl⟩ | ⟨c, -, -, rfl, hne⟩ := baseAndIndex_cases hle hregisters
    · exact ⟨hindex, fun _ => hone, fun hbase hne => absurd (hnone hbase) hne⟩
    · exact ⟨hindex, fun _ => rfl, by simp⟩
    · exact ⟨hindex, by simp, fun hbase _ => hne hbase⟩

theorem readAddress_wellFormed {operand inner : List Char} {a : Address} (h : readAddress operand inner = .ok a) :
    a.WellFormed := by
  unfold readAddress at h
  split at h
  · cases h
  · obtain ⟨parts, -, hp⟩ := bind_eq_ok.1 h
    exact addressOfParts_wellFormed hp

/-! ### Operands -/

section

variable {operand : List Char}

theorem insideBrackets?_eq_some {s inner : List Char} (h : insideBrackets? s = some inner) :
    s = '[' :: (inner ++ [']']) := by
  unfold insideBrackets? at h
  split at h
  · rename_i rest
    split at h
    · rename_i hlast
      cases h
      obtain ⟨front, rfl⟩ := List.getLast?_eq_some_iff.1 hlast
      rw [List.dropLast_concat]
    · cases h
  · cases h

/-- An operand is refused as a whole, or it is an address in brackets, a numeral, a register or a vector register. -/
theorem readOperand_cases (operand : List Char) :
    (∃ cause, readOperand operand = .error ⟨cause, operand⟩) ∨
      (∃ inner, (leadingSize operand).2 = '[' :: (inner ++ [']']) ∧
        readOperand operand = (readAddress operand inner).map fun a => .memory a (leadingSize operand).1) ∨
      (∃ z, Text.integer? operand = some z ∧ readOperand operand = .ok (.immediate z)) ∨
      (∃ v, readOperand operand = .ok (.register v)) ∨ ∃ x, readOperand operand = .ok (.vector x) := by
  unfold readOperand
  split
  · unfold readMemory
    dsimp only
    cases hinside : insideBrackets? (leadingSize operand).2 with
    | none => exact .inl ⟨_, rfl⟩
    | some inner => exact .inr (.inl ⟨inner, insideBrackets?_eq_some hinside, rfl⟩)
  · unfold readSimple
    split
    · exact .inl ⟨_, rfl⟩
    · split
      · rename_i z hz
        exact .inr (.inr (.inl ⟨z, hz, rfl⟩))
      · split
        · split
          · exact .inr (.inr (.inr (.inr ⟨_, rfl⟩)))
          · exact .inr (.inr (.inr (.inl ⟨_, rfl⟩)))
          · exact .inl ⟨_, rfl⟩
        · exact .inl ⟨_, rfl⟩

theorem exists_readAddress_of_readOperand {a : Address} {width : Option Width}
    (h : readOperand operand = .ok (.memory a width)) : ∃ inner,
      (leadingSize operand).2 = '[' :: (inner ++ [']']) ∧ (leadingSize operand).1 = width ∧
        readAddress operand inner = .ok a := by
  rcases readOperand_cases operand with ⟨_, h'⟩ | ⟨inner, hinner, h'⟩ | ⟨_, -, h'⟩ | ⟨_, h'⟩ | ⟨_, h'⟩ <;>
    rw [h'] at h
  · cases h
  · obtain ⟨a', ha, heq⟩ := map_eq_ok.1 h
    injection heq with haddress hwidth
    exact ⟨inner, hinner, hwidth, haddress ▸ ha⟩
  · cases h
  · cases h
  · cases h

theorem integer?_of_readOperand {z : Int} (h : readOperand operand = .ok (.immediate z)) :
    Text.integer? operand = some z := by
  rcases readOperand_cases operand with ⟨_, h'⟩ | ⟨inner, -, h'⟩ | ⟨z', hz, h'⟩ | ⟨_, h'⟩ | ⟨_, h'⟩ <;>
    rw [h'] at h
  · cases h
  · obtain ⟨a, -, heq⟩ := map_eq_ok.1 h
    cases heq
  · cases h
    exact hz
  · cases h
  · cases h

theorem readOperand_eq_error {c : Complaint} (h : readOperand operand = .error c) :
    c.token = operand ∨ ∃ inner, (leadingSize operand).2 = '[' :: (inner ++ [']']) ∧
      readAddress operand inner = .error c := by
  rcases readOperand_cases operand with ⟨_, h'⟩ | ⟨inner, hinner, h'⟩ | ⟨_, -, h'⟩ | ⟨_, h'⟩ | ⟨_, h'⟩ <;>
    rw [h'] at h
  · cases h
    exact .inl rfl
  · exact .inr ⟨inner, hinner, map_eq_error.1 h⟩
  · cases h
  · cases h
  · cases h

end

/-! ### Widths -/

/-- What the first pass over the operands leaves at a position. -/
private theorem sizeMemory_known {m : Mnemonic} {widths : List Width} {p : PlacedOperand} {k : Nat} {o : Operand}
    (h : sizeMemory m widths p k = .ok (.known o)) :
    (∀ z n, o ≠ .immediate z n) ∧ (∀ l, o = .memory l → ∃ w, p.operand = .memory l.address w) := by
  unfold sizeMemory at h
  split at h
  · cases h
    exact ⟨by simp, by simp⟩
  · cases h
    exact ⟨by simp, by simp⟩
  · cases h
  · rename_i a w hp
    split at h
    · cases h
      refine ⟨by simp, fun l hl => ?_⟩
      cases hl
      exact ⟨w, hp⟩
    · cases h

private theorem sizeImmediate_known {m : Mnemonic} {first : Option SizedOperand} {o o' : Operand} {k : Nat}
    (h : sizeImmediate m first (.known o) k = .ok o') : o' = o := by
  cases h
  rfl

private theorem sizeImmediate_literal {m : Mnemonic} {first : Option SizedOperand} {z : Int} {c k : Nat} {o : Operand}
    (h : sizeImmediate m first (.literal z c) k = .ok o) :
    ∃ n, immediateBits? m k first = some n ∧ o = .immediate z n := by
  simp only [sizeImmediate] at h
  split at h
  · rename_i n hn
    cases h
    exact ⟨n, hn, rfl⟩
  · cases h

/-- An operand of the result comes from a sized operand, and that one from an operand that was read. -/
private theorem resolveWidths_steps {m : Mnemonic} {operands : List PlacedOperand} {os : List Operand}
    (h : resolveWidths m operands = .ok os) :
    ∃ sized : List SizedOperand, sized.length = operands.length ∧ os.length = operands.length ∧
      (∀ k s, sized[k]? = some s →
        ∃ p, operands[k]? = some p ∧ sizeMemory m (sizingWidths m operands) p k = .ok s) ∧
      (∀ k o, os[k]? = some o → ∃ s, sized[k]? = some s ∧ sizeImmediate m sized.head? s k = .ok o) := by
  obtain ⟨sized, hs, ho⟩ := bind_eq_ok.1 h
  refine ⟨sized, by simpa using length_of_mapM hs, ?_, fun k s hk => ?_, fun k o hk => ?_⟩
  · rw [length_of_mapM ho, List.length_zipIdx, length_of_mapM hs, List.length_zipIdx]
  · obtain ⟨⟨p, j⟩, hp, hf⟩ := getElem?_of_mapM hs hk
    rw [List.getElem?_zipIdx] at hp
    simp only [Option.map_eq_some_iff, Prod.mk.injEq, Nat.zero_add] at hp
    obtain ⟨p', hp', rfl, rfl⟩ := hp
    exact ⟨p', hp', hf⟩
  · obtain ⟨⟨s, j⟩, hp, hf⟩ := getElem?_of_mapM ho hk
    rw [List.getElem?_zipIdx] at hp
    simp only [Option.map_eq_some_iff, Prod.mk.injEq, Nat.zero_add] at hp
    obtain ⟨s', hs', rfl, rfl⟩ := hp
    exact ⟨s', hs', hf⟩

private theorem immediateBits?_eq {m : Mnemonic} {k n : Nat} {first : Option SizedOperand}
    (h : immediateBits? m k first = some n) :
    (k = 0 → m = .push) ∧ ∀ o, first = some (.known o) → n = m.immediateBits k o := by
  unfold immediateBits? at h
  unfold Mnemonic.immediateBits
  split at h
  · rename_i hshift
    cases h
    exact ⟨fun hk => absurd hshift.2 (by omega), fun o _ => by rw [if_pos hshift]⟩
  · rename_i hshift
    split at h
    · rename_i hpush
      cases h
      exact ⟨fun _ => hpush, fun o _ => by rw [if_neg hshift, if_pos hpush]⟩
    · rename_i hpush
      split at h
      · cases h
      · rename_i hk
        refine ⟨fun h0 => absurd h0 hk, fun o ho => ?_⟩
        subst ho
        cases h
        rw [if_neg hshift, if_neg hpush]

theorem resolveWidths_wellFormed {m : Mnemonic} {operands : List PlacedOperand} {os : List Operand}
    (h : resolveWidths m operands = .ok os) (hc : operands.length ∈ m.operandCounts)
    (ha : ∀ p ∈ operands, ∀ a w, p.operand = .memory a w → a.WellFormed) : Instruction.WellFormed ⟨m, os⟩ := by
  obtain ⟨sized, hl, hl', hsized, hos⟩ := resolveWidths_steps h
  -- an immediate of the result was a literal, and its width was looked up
  have himm : ∀ k z n, os[k]? = some (.immediate z n) → immediateBits? m k sized.head? = some n := by
    intro k z n hk
    obtain ⟨s, hs, hf⟩ := hos k _ hk
    obtain ⟨p, -, hp⟩ := hsized k s hs
    cases s with
    | known o =>
      obtain rfl := sizeImmediate_known hf
      exact absurd rfl ((sizeMemory_known hp).1 z n)
    | literal z' c =>
      obtain ⟨n', hn, he⟩ := sizeImmediate_literal hf
      cases he
      exact hn
  refine ⟨by rw [hl']; exact hc, fun l hmem => ?_, fun k z n first hk hfirst => ?_, fun z n hk => ?_⟩
  -- an address of the result is one that was read
  · obtain ⟨k, hk⟩ := List.getElem?_of_mem hmem
    obtain ⟨s, hs, hf⟩ := hos k _ hk
    obtain ⟨p, hp, hp'⟩ := hsized k s hs
    cases s with
    | known o =>
      obtain rfl := sizeImmediate_known hf
      obtain ⟨w, hw⟩ := (sizeMemory_known hp').2 l rfl
      exact ha p (List.mem_of_getElem? hp) _ _ hw
    | literal z c =>
      obtain ⟨n, -, he⟩ := sizeImmediate_literal hf
      cases he
  · have hn := himm k z n hk
    obtain ⟨s, hs, hf⟩ := hos 0 _ hfirst
    rw [List.head?_eq_getElem?, hs] at hn
    cases s with
    | known o =>
      obtain rfl := sizeImmediate_known hf
      exact (immediateBits?_eq hn).2 _ rfl
    | literal z' c =>
      obtain ⟨n', hn', rfl⟩ := sizeImmediate_literal hf
      -- only a push has a literal in front
      have hpush := (immediateBits?_eq hn').1 rfl
      subst hpush
      simp only [immediateBits?, Mnemonic.isShift] at hn
      simpa [Mnemonic.immediateBits, Mnemonic.isShift] using hn.symm
  · exact (immediateBits?_eq (himm 0 z n hk)).1 rfl

/-! ### Instructions -/

theorem parse_wellFormed {text : List Char} {i : Instruction} (h : parse text = .ok i) : i.WellFormed := by
  unfold parse at h
  dsimp only at h
  split at h
  · cases h
  · obtain ⟨m, -, h⟩ := bind_eq_ok.1 h
    obtain ⟨pieces, -, h⟩ := bind_eq_ok.1 h
    obtain ⟨operands, hops, h⟩ := bind_eq_ok.1 h
    split at h
    · cases h
    · rename_i hcount
      obtain ⟨os, hos, h⟩ := bind_eq_ok.1 h
      cases h
      refine resolveWidths_wellFormed hos (by simpa using hcount) fun p hp a w hpa => ?_
      obtain ⟨k, hk⟩ := List.getElem?_of_mem hp
      obtain ⟨piece, -, hpiece⟩ := getElem?_of_mapM hops hk
      unfold Piece.operand at hpiece
      split at hpiece
      · rename_i o ho
        cases hpiece
        obtain ⟨inner, -, -, ha⟩ := exists_readAddress_of_readOperand (ho.trans (congrArg Except.ok hpa))
        exact readAddress_wellFormed ha
      · cases hpiece

end Assembly

end LongMode

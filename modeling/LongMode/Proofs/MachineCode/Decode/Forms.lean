import LongMode.Proofs.MachineCode.Decode.Spelling

/-!
# The other forms

The machine code of each form spells the instruction it was made from:

* `spells_encodeExtension`, `spells_encodeSignExtension`, `spells_encodeLoadAddress`, `spells_encodeRegisterSource`: a
  register and a source.
* `spells_encodeUnary`, `spells_encodePush`, `spells_encodePop`: one operand.
* `spells_encodeMultiply`: a register, a place and a factor.
* `spells_encodeShift`: a place and a count.
* `spells_encodeExchange`: two places, in the order that the form fixes (`exchangePartner_spec`).
* `spells_encodePackedAdd`, `spells_implied`: two vector registers, and no operand at all.
-/

namespace LongMode

namespace MachineCode

/-- A register and a place, for an opcode that is no matter of the width. -/
theorem spells_source {opcode : List UInt8} {m : Mnemonic} {v : View} {p : Place} {u w : Width} {c : Code}
    (hp : ∀ l, p = .memory l → l.address.WellFormed) (hv : v.width ≠ .byte)
    (h : (form opcode v.width).withModRm (.register v) (.ofPlace p) = .ok c) (hopcode : Code.IsOpcode opcode)
    (hm : hasModRm opcode = true) (hu : u = v.width) (hw : w = p.width)
    (ht : ∀ plain digit, pattern? plain v.width digit opcode = some ⟨m, [.register u, .place w]⟩) :
    c.Spells ⟨m, [.register v, p.operand]⟩ := by
  subst hu hw
  have hf := Form.fills_of_withModRm hp h
  refine hf.spells [.register v.width, .place p.width] hopcode hm (fun plain w hw => ?_) rfl ?_
  · rw [hw hv rfl]
    exact ht plain _
  · simp [hf.operand_place, hf.operand_register]

theorem isOpcode_escape (a : UInt8) : Code.IsOpcode [0x0F, a] := ⟨by decide, by decide, rfl⟩

theorem ne_byte_of_mem {w : Width} (h : w ∈ Width.wordOrMore) : w ≠ .byte := by
  rintro rfl
  simp [Width.wordOrMore] at h

theorem spells_encodeExtension {a : UInt8} {m : Mnemonic} {d s : Operand} {c : Code}
    (hwf : WellFormedAddresses [d, s]) (h : encodeExtension a d s = .ok c)
    (ha : ∀ plain w digit, pattern? plain w digit [0x0F, a] = some ⟨m, [.register w, .place .byte]⟩)
    (hb : ∀ plain w digit, pattern? plain w digit [0x0F, a + 1] = some ⟨m, [.register w, .place .word]⟩) :
    c.Spells ⟨m, [d.reduced, s.reduced]⟩ := by
  simp only [encodeExtension, bind_eq_ok, requirePlace_eq_ok, requireRegister_eq_ok] at h
  obtain ⟨p, rfl, v, ⟨rfl, hv⟩, h⟩ := h
  rw [Place.reduced_operand]
  have hplace := wellFormed_place hwf (List.mem_cons_of_mem _ (List.mem_cons_self (a := p.operand)))
  split at h
  · rename_i hw
    by_cases hbyte : p.width = .byte
    · simp only [hbyte, if_true] at h
      exact spells_source hplace (ne_byte_of_mem hv) h (isOpcode_escape a) rfl rfl hbyte.symm
        fun plain digit => ha plain _ digit
    · simp only [hbyte, if_false] at h
      exact spells_source hplace (ne_byte_of_mem hv) h (isOpcode_escape _) rfl rfl (hw.1.resolve_left hbyte).symm
        fun plain digit => hb plain _ digit
  · cases h

theorem spells_encodeSignExtension {d s : Operand} {c : Code} (hwf : WellFormedAddresses [d, s])
    (h : encodeSignExtension d s = .ok c) : c.Spells ⟨.movsxd, [d.reduced, s.reduced]⟩ := by
  simp only [encodeSignExtension, bind_eq_ok, requirePlace_eq_ok, requireRegister_eq_ok, List.mem_singleton] at h
  obtain ⟨p, rfl, v, ⟨rfl, hv⟩, h⟩ := h
  rw [Place.reduced_operand]
  have hplace := wellFormed_place hwf (List.mem_cons_of_mem _ (List.mem_cons_self (a := p.operand)))
  split at h
  · rename_i hw
    exact spells_source hplace (by simp [hv]) (hv ▸ h) (by decide) rfl hv.symm hw.symm fun _ _ => rfl
  · cases h

theorem spells_encodeLoadAddress {d s : Operand} {c : Code} (hwf : WellFormedAddresses [d, s])
    (h : encodeLoadAddress d s = .ok c) : c.Spells (Instruction.mk .lea [d, s]).canonical := by
  simp only [encodeLoadAddress, bind_eq_ok, requireRegister_eq_ok] at h
  obtain ⟨v, ⟨rfl, hv⟩, h⟩ := h
  cases s with
  | memory l =>
    exact spells_source (p := .memory ⟨l.address, .qword⟩) (by rintro _ ⟨⟩; exact hwf l (by simp)) (ne_byte_of_mem hv) h
      (by decide) rfl rfl rfl fun _ _ => rfl
  | _ => cases h

theorem spells_encodeRegisterSource {opcode : List UInt8} {m : Mnemonic} {d s : Operand} {c : Code}
    (hwf : WellFormedAddresses [d, s]) (h : encodeRegisterSource opcode d s = .ok c) (hopcode : Code.IsOpcode opcode)
    (hm : hasModRm opcode = true)
    (ht : ∀ plain w digit, pattern? plain w digit opcode = some ⟨m, [.register w, .place w]⟩) :
    c.Spells ⟨m, [d.reduced, s.reduced]⟩ := by
  simp only [encodeRegisterSource, bind_eq_ok, requirePlace_eq_ok, requireRegister_eq_ok, requireSameWidth_eq_ok] at h
  obtain ⟨v, ⟨rfl, hv⟩, p, rfl, -, hb, h⟩ := h
  rw [Place.bits_operand] at hb
  rw [Place.reduced_operand]
  exact spells_source (wellFormed_place hwf (List.mem_cons_of_mem _ List.mem_cons_self)) (ne_byte_of_mem hv) h hopcode
    hm rfl (Width.eq_of_bits_eq hb) fun plain digit => ht plain _ digit

theorem spells_encodeUnary {a b : UInt8} {digit : Fin 8} {m : Mnemonic} {o : Operand} {c : Code}
    (hwf : WellFormedAddresses [o]) (h : encodeUnary a b digit o = .ok c)
    (hopcode : Code.IsOpcode [a] ∧ Code.IsOpcode [b]) (hm : hasModRm [a] = true ∧ hasModRm [b] = true)
    (ha : ∀ plain w, pattern? plain w digit [a] = some ⟨m, [.place .byte]⟩)
    (hb : ∀ plain w, pattern? plain w digit [b] = some ⟨m, [.place w]⟩) : c.Spells ⟨m, [o.reduced]⟩ := by
  simp only [encodeUnary, bind_eq_ok, requirePlace_eq_ok] at h
  obtain ⟨p, rfl, h⟩ := h
  rw [Place.reduced_operand]
  have hf := Form.fills_of_withModRm (wellFormed_place hwf List.mem_cons_self) h
  exact hf.spells_byWidth [] (k := fun w => ⟨m, [.place w]⟩) hopcode hm ha hb rfl rfl (by simp [hf.operand_place])

private theorem pattern?_push (plain : Bool) (w : Width) :
    ∀ r : Fin 8, pattern? plain w 0 [0x50 + UInt8.ofNat r.val] = some ⟨.push, [.opcodeRegister .qword]⟩
  | 0 | 1 | 2 | 3 | 4 | 5 | 6 | 7 => rfl

private theorem pattern?_pop (plain : Bool) (w : Width) :
    ∀ r : Fin 8, pattern? plain w 0 [0x58 + UInt8.ofNat r.val] = some ⟨.pop, [.opcodeRegister .qword]⟩
  | 0 | 1 | 2 | 3 | 4 | 5 | 6 | 7 => rfl

/-- An implied form of a push. -/
private theorem spells_pushImmediate {b : UInt8} {n : Nat} {value : Int} {bytes : List UInt8} {c : Code}
    (h : (Form.mk [b] .qword true bytes).implied = .ok c) (hopcode : Code.IsOpcode [b]) (hm : hasModRm [b] = false)
    (hp : ∀ plain w, pattern? plain w 0 [b] = some ⟨.push, [.immediate n .qword]⟩) (hn : bytes.length = n)
    (hvalue : signedOf bytes = value) : c.Spells ⟨.push, [.immediate value 64]⟩ := by
  refine spells_of_implied [.immediate n .qword] h hopcode hm (fun plain w _ _ => hp plain w) ?_ fun c' hc' => ?_
  · simpa [Slot.immediateSize] using hn
  · have hc' : c'.immediate = bytes := hc'
    simp [Code.operand?, hc', hvalue, Width.bits, Width.bytes]

theorem spells_encodePush {s : Operand} {c : Code} (hwf : WellFormedAddresses [s]) (h : encodePush s = .ok c) :
    c.Spells ⟨.push, [s.reduced]⟩ := by
  unfold encodePush at h
  split at h
  · cases h
  · rename_i hbits
    have hbits : s.bits = 64 := Classical.not_not.1 hbits
    cases s with
    | register v =>
      have hw : v.width = .qword := Width.eq_of_bits_eq (w := .qword) hbits
      refine spells_of_opcodeRegister [.opcodeRegister .qword] h (by simp) (fun plain u _ _ => ?_) rfl
        fun c _ hr => ?_
      · exact pattern?_push plain u _
      · rw [hw] at hr
        simp [hr, Operand.reduced]
    | memory l =>
      have hw : l.width = .qword := Width.eq_of_bits_eq (w := .qword) hbits
      have hf := Form.fills_of_withModRm (p := .memory l) (wellFormed_place hwf List.mem_cons_self) h
      refine hf.spells [.place .qword] (show Code.IsOpcode [0xFF] by decide) rfl (fun _ _ _ => rfl) rfl ?_
      have hp : c.operand? (.place .qword) = some (.memory l) := hw ▸ hf.operand_place
      simp [hp, Operand.reduced]
    | immediate z n =>
      obtain rfl : n = 64 := hbits
      obtain ⟨value, hvalue, h⟩ := bind_eq_ok.1 h
      obtain ⟨-, rfl⟩ := immediateValue_eq_ok.1 hvalue
      split at h
      · rename_i h8
        exact spells_pushImmediate h (by decide) rfl (fun _ _ => rfl) rfl (signedOf_signedBytes (by decide) h8)
      · obtain ⟨bytes, hbytes, h⟩ := bind_eq_ok.1 h
        obtain ⟨hlen, hv⟩ := wideImmediate_eq_ok (by simp) hbytes
        exact spells_pushImmediate h (by decide) rfl (fun _ _ => rfl) hlen.symm hv
    | vector x => cases hbits

theorem spells_encodePop {d : Operand} {c : Code} (hwf : WellFormedAddresses [d]) (h : encodePop d = .ok c) :
    c.Spells ⟨.pop, [d.reduced]⟩ := by
  simp only [encodePop, bind_eq_ok, requirePlace_eq_ok] at h
  obtain ⟨p, rfl, h⟩ := h
  rw [Place.reduced_operand]
  split at h
  · cases h
  · rename_i hw
    have hw : p.width = .qword := Classical.not_not.1 hw
    cases p with
    | register v =>
      refine spells_of_opcodeRegister [.opcodeRegister .qword] h (by simp) (fun plain u _ _ => ?_) rfl
        fun c _ hr => ?_
      · exact pattern?_pop plain u _
      · have hw : v.width = .qword := hw
        rw [hw] at hr
        simp [hr, Place.operand]
    | memory l =>
      have hf := Form.fills_of_withModRm (p := .memory l) (wellFormed_place hwf List.mem_cons_self) h
      refine hf.spells [.place .qword] (show Code.IsOpcode [0x8F] by decide) rfl (fun _ _ _ => rfl) rfl ?_
      have hp : c.operand? (.place .qword) = some (.memory l) := hw ▸ hf.operand_place
      simp [hp, Place.operand]

/-- A register, a place of its width and an immediate. -/
private theorem spells_factor {b : UInt8} {v : View} {p : Place} {value : Int} {n : Width → Nat} {bytes : List UInt8}
    {c : Code} (hp : ∀ l, p = .memory l → l.address.WellFormed) (hv : v.width ≠ .byte) (hw : v.width = p.width)
    (h : ((form [b] v.width).withImmediate bytes).withModRm (.register v) (.ofPlace p) = .ok c)
    (hopcode : Code.IsOpcode [b]) (hm : hasModRm [b] = true)
    (ht : ∀ plain w digit, pattern? plain w digit [b] = some ⟨.imul, [.register w, .place w, .immediate (n w) w]⟩)
    (hsize : n v.width = bytes.length) (hvalue : signedOf bytes = value) :
    c.Spells ⟨.imul, [.register v, p.operand, .immediate value v.bits]⟩ := by
  have hf := Form.fills_of_withModRm hp h
  refine hf.spells [.register v.width, .place v.width, .immediate (n v.width) v.width] hopcode hm
    (fun plain w hw => ?_) ?_ ?_
  · rw [hw hv rfl]
    exact ht plain _ _
  · simp [Slot.immediateSize, hsize, Form.withImmediate]
  · have hplace : c.operand? (.place v.width) = some p.operand := hw ▸ hf.operand_place
    simp [hf.operand_register, hplace, hf.operand_immediate hvalue, View.bits]

theorem spells_encodeMultiply {d s f : Operand} {c : Code} (hwf : WellFormedAddresses [d, s, f])
    (h : encodeMultiply d s f = .ok c) : c.Spells ⟨.imul, [d.reduced, s.reduced, f.reduced]⟩ := by
  simp only [encodeMultiply, bind_eq_ok, requirePlace_eq_ok, requireRegister_eq_ok, requireSameWidth_eq_ok] at h
  obtain ⟨v, ⟨rfl, hv⟩, p, rfl, -, hb, h⟩ := h
  rw [Place.bits_operand] at hb
  have hw : v.width = p.width := Width.eq_of_bits_eq hb
  rw [Place.reduced_operand]
  have hplace := wellFormed_place hwf (List.mem_cons_of_mem _ (List.mem_cons_self (a := p.operand)))
  cases f with
  | immediate z n =>
    dsimp only at h
    split at h
    · cases h
    · rename_i hn
      obtain rfl := Classical.not_not.1 hn
      obtain ⟨value, hvalue, h⟩ := bind_eq_ok.1 h
      obtain ⟨-, rfl⟩ := immediateValue_eq_ok.1 hvalue
      split at h
      · rename_i h8
        exact spells_factor (n := fun _ => 1) hplace (ne_byte_of_mem hv) hw h (by decide) rfl (fun _ _ _ => rfl) rfl
          (signedOf_signedBytes (by decide) h8)
      · obtain ⟨bytes, hbytes, h⟩ := bind_eq_ok.1 h
        obtain ⟨hlen, hvalue⟩ := wideImmediate_eq_ok (ne_byte_of_mem hv) hbytes
        exact spells_factor (n := fullSize) hplace (ne_byte_of_mem hv) hw h (by decide) rfl (fun _ _ _ => rfl) hlen
          hvalue
  | _ => cases h

/-- A place with the digit of a shift, and a count. -/
private theorem spells_count {a b : UInt8} {digit : Fin 8} {m : Mnemonic} {p : Place} {o : Operand}
    {c : Code} (slot : Slot) (bytes : List UInt8) (hm : shift? digit = some m)
    (hp : ∀ l, p = .memory l → l.address.WellFormed)
    (h : ((byWidth p.width a b).withImmediate bytes).withModRm (.digit digit) (.ofPlace p) = .ok c)
    (hopcode : Code.IsOpcode [a] ∧ Code.IsOpcode [b]) (hmod : hasModRm [a] = true ∧ hasModRm [b] = true)
    (ha : ∀ plain w, pattern? plain w digit [a] = (shift? digit).map fun m => ⟨m, [.place .byte, slot]⟩)
    (hb : ∀ plain w, pattern? plain w digit [b] = (shift? digit).map fun m => ⟨m, [.place w, slot]⟩)
    (hsize : bytes.length = slot.immediateSize)
    (ho : ∀ c : Code, c.immediate = bytes → c.operand? slot = some o) : c.Spells ⟨m, [p.operand, o]⟩ := by
  have hf := Form.fills_of_withModRm hp h
  rw [hm] at ha hb
  refine hf.spells_byWidth bytes (k := fun w => ⟨m, [.place w, slot]⟩) hopcode hmod ha hb rfl ?_ ?_
  · simp [Pattern.immediateSize, Slot.immediateSize, hsize]
  · simp [hf.operand_place, ho c hf.immediate]

/-- The count of a shift is a byte. -/
theorem spells_encodeShift {digit : Fin 8} {m : Mnemonic} {d s : Operand} {c : Code} (hm : shift? digit = some m)
    (hs : ∀ z n, s = .immediate z n → n = 8) (hwf : WellFormedAddresses [d, s]) (h : encodeShift digit d s = .ok c) :
    c.Spells ⟨m, [d.reduced, s.reduced]⟩ := by
  simp only [encodeShift, bind_eq_ok, requirePlace_eq_ok] at h
  obtain ⟨p, rfl, h⟩ := h
  rw [Place.reduced_operand]
  have hplace := wellFormed_place hwf (List.mem_cons_self (a := p.operand))
  cases s with
  | register v =>
    dsimp only at h
    split at h
    · cases h
    · rename_i hv
      obtain rfl := Classical.not_not.1 hv
      exact spells_count .count [] hm hplace h ⟨by decide, by decide⟩ ⟨rfl, rfl⟩ (fun _ _ => rfl) (fun _ _ => rfl) rfl
        fun _ _ => rfl
  | immediate z n =>
    obtain rfl := hs z n rfl
    obtain ⟨value, hvalue, h⟩ := bind_eq_ok.1 h
    obtain ⟨-, rfl⟩ := immediateValue_eq_ok.1 hvalue
    split at h
    · rename_i hone
      have hone : signed 8 z = 1 := hone
      rw [Operand.reduced, hone]
      exact spells_count .one [] hm hplace h ⟨by decide, by decide⟩ ⟨rfl, rfl⟩ (fun _ _ => rfl) (fun _ _ => rfl) rfl
        fun _ _ => rfl
    · refine spells_count (.immediate 1 .byte) _ hm hplace h ⟨by decide, by decide⟩ ⟨rfl, rfl⟩ (fun _ _ => rfl)
        (fun _ _ => rfl) rfl fun c' hc' => ?_
      rw [Code.operand?, hc', signedOf_byte]
      rfl
  | _ => cases h

private theorem pattern?_exchange (w : Width) : ∀ (plain : Bool) (r : Fin 8), (r = 0 → plain = false) →
    pattern? plain w 0 [0x90 + UInt8.ofNat r.val] = some ⟨.xchg, [.accumulator w, .opcodeRegister w]⟩
  | false, 0, _ | false, 1, _ | false, 2, _ | false, 3, _ | false, 4, _ | false, 5, _ | false, 6, _ | false, 7, _
  | true, 1, _ | true, 2, _ | true, 3, _ | true, 4, _ | true, 5, _ | true, 6, _ | true, 7, _ => rfl
  | true, 0, h => absurd (h rfl) (by simp)

theorem eq_of_cell_rax {v : View} (hw : v.width ≠ .byte) (hc : v.cell = .rax) : v = .low .rax v.width := by
  cases v with
  | low c w => rw [show c = .rax from hc]; rfl
  | high b => exact absurd rfl hw

theorem isAccumulator_iff {v : View} (hw : v.width ≠ .byte) :
    (Place.register v).isAccumulator = true ↔ v.cell = .rax := by
  constructor
  · intro h
    obtain ⟨w, hv⟩ := eq_of_isAccumulator h
    cases hv
    rfl
  · intro h
    rw [eq_of_cell_rax hw h]
    rfl

/-- The short form of an exchange holds the other register than the accumulator. -/
theorem exchangePartner_spec {u v : View} (hw : u.width = v.width) :
    (∀ partner, exchangePartner? u v = some partner → u.width ≠ .byte ∧ partner.width = u.width ∧
        (partner.cell = .rax → u.width ≠ .dword) ∧
        (Instruction.mk .xchg [.register u, .register v]).canonical =
          ⟨.xchg, [.register (.low .rax u.width), .register partner]⟩) ∧
      (exchangePartner? u v = none → (Instruction.mk .xchg [.register u, .register v]).canonical =
        ⟨.xchg, [.register u, .register v]⟩) := by
  have hcanonical : (Instruction.mk .xchg [.register u, .register v]).canonical = ⟨.xchg,
      if v.width ≠ .byte ∧ v.cell = .rax then [.register v, .register u] else [.register u, .register v]⟩ := rfl
  rw [hcanonical]
  unfold exchangePartner?
  -- bytes have no short form, and otherwise it matters which of the two is the accumulator
  by_cases hb : u.width = .byte
  · simp [hb, ← hw]
  · have hbv : v.width ≠ .byte := hw ▸ hb
    have hu := isAccumulator_iff hb
    have hv := isAccumulator_iff hbv
    simp only [hb, if_false, hu, hv, hbv, ne_eq, not_false_eq_true, true_and]
    by_cases hur : u.cell = .rax
    · have hu' := eq_of_cell_rax hb hur
      by_cases hvr : v.cell = .rax
      · obtain rfl : u = v := by rw [hu', eq_of_cell_rax hbv hvr, hw]
        by_cases hd : u.width = .dword
        · simp [hur, hd, hu]
        · simp only [hur, hd, if_true, Option.filter]
          simp [hd, ← hu']
      · have hu'' : View.low .rax v.width = u := by rw [← hw, ← hu']
        simp [hur, hvr, hv, Option.filter, hw, hu'']
    · by_cases hvr : v.cell = .rax
      · have hv' := eq_of_cell_rax hbv hvr
        simp [hur, hvr, hu, Option.filter, hw, ← hv']
      · simp [hur, hvr]

private theorem spells_exchangeShort {w : Width} {partner : View} {c : Code} (hb : w ≠ .byte) (hw : partner.width = w)
    (hd : partner.cell = .rax → w ≠ .dword) (h : (form [0x90] w).withOpcodeRegister partner = .ok c) :
    c.Spells ⟨.xchg, [.register (.low .rax w), .register partner]⟩ := by
  refine spells_of_opcodeRegister [.accumulator w, .opcodeRegister w] h (by simp) (fun plain u hplain hu => ?_) rfl
    fun c _ hr => ?_
  · rw [hu hb rfl]
    refine pattern?_exchange w plain _ fun hfield => Bool.eq_false_iff.2 fun hp => ?_
    obtain ⟨hword, hqword, hext⟩ := hplain hp
    -- without a prefix the width is 32 bits, and 90 alone is the nop
    have hdword : w = .dword := by
      cases w with
      | byte => exact absurd rfl hb
      | word => exact absurd rfl hword
      | dword => rfl
      | qword => exact absurd (hqword rfl) (by simp)
    refine hd ?_ hdword
    cases partner with
    | low c u =>
      have hc := Cell.ofNumber_extend c
      rw [show c.isExtended = false from hext, show c.field = 0 from hfield] at hc
      exact hc.symm
    | high b => exact absurd hw.symm hb
  · rw [hw] at hr
    have ha : c.operand? (.accumulator w) = some (.register (.low .rax w)) := rfl
    simp [ha, hr]

theorem spells_encodeExchange {a b : Operand} {c : Code} (hwf : WellFormedAddresses [a, b])
    (h : encodeExchange a b = .ok c) : c.Spells (Instruction.mk .xchg [a, b]).canonical := by
  simp only [encodeExchange, bind_eq_ok, requirePlace_eq_ok, requirePair_eq_ok] at h
  obtain ⟨q, rfl, pair, hpair, h⟩ := h
  cases pair with
  | store p v =>
    obtain ⟨rfl, hv, hw⟩ := hpair
    cases q with
    | memory l => cases hv
    | register v' =>
      cases hv
      cases p with
      | register u =>
        obtain ⟨hsome, hnone⟩ := exchangePartner_spec hw
        dsimp only at h
        split at h
        · rename_i partner hpartner
          obtain ⟨hb, hpw, hd, hc⟩ := hsome partner hpartner
          rw [Place.operand, Place.operand, hc]
          exact spells_exchangeShort hb hpw hd h
        · rename_i hpartner
          rw [Place.operand, Place.operand, hnone hpartner]
          exact spells_store (p := .register u) (by simp) hw h ⟨by decide, by decide⟩ ⟨rfl, rfl⟩ (fun _ _ _ => rfl)
            fun _ _ _ => rfl
      | memory l =>
        exact spells_store (p := .memory l) (wellFormed_place hwf List.mem_cons_self) hw h ⟨by decide, by decide⟩
          ⟨rfl, rfl⟩ (fun _ _ _ => rfl) fun _ _ _ => rfl
  | load v l =>
    obtain ⟨rfl, hq, hw⟩ := hpair
    rw [hq] at hwf ⊢
    have h : (byWidth l.width 0x86 0x87).withModRm (.register v) (.address l.address) = .ok c := hw ▸ h
    exact spells_store (p := .memory l) (wellFormed_place hwf (by simp [Place.operand])) hw.symm h
      ⟨by decide, by decide⟩ ⟨rfl, rfl⟩ (fun _ _ _ => rfl) fun _ _ _ => rfl
  | constant p z => cases h

theorem extend_number : ∀ n : Fin 16, extend (decide (8 ≤ n.val)) (Fin.ofNat 8 n.val) = n := by
  decide

theorem fields_of_packedAdd {x y : VectorRegister} {c : Code} (h : encodePackedAdd (.vector x) (.vector y) = .ok c) :
    c.rexBits = ⟨false, decide (8 ≤ x.number.val), false, decide (8 ≤ y.number.val)⟩ ∧
      c.modRm = some ⟨3, Fin.ofNat 8 x.number.val, Fin.ofNat 8 y.number.val, none, []⟩ := by
  cases h
  refine ⟨?_, rfl⟩
  unfold Code.rexBits
  by_cases hx : 8 ≤ x.number.val <;> by_cases hy : 8 ≤ y.number.val <;> simp [hx, hy, Rex.absent]

theorem spells_encodePackedAdd {d s : Operand} {c : Code} (h : encodePackedAdd d s = .ok c) :
    c.Spells ⟨.paddd, [d.reduced, s.reduced]⟩ := by
  cases d with
  | vector x =>
    cases s with
    | vector y =>
      obtain ⟨hbits, hmod⟩ := fields_of_packedAdd h
      have hpattern : c.pattern? = some ⟨.paddd, [.vectorRegister, .vectorPlace]⟩ := by
        cases h
        rfl
      refine ⟨⟨_, ?_, ?_, fun m hm => ?_, hpattern, ?_⟩, ?_⟩
      · cases h
        exact isOpcode_escape _
      · cases h
        rfl
      · cases hmod.symm.trans hm
        exact ⟨by simp, rfl⟩
      · cases h
        rfl
      · have hd : c.operand? .vectorRegister = some (.vector x) := by
          simp only [Code.operand?, hmod, hbits, Option.map_some, extend_number]
        have hs : c.operand? .vectorPlace = some (.vector y) := by
          simp only [Code.operand?, hmod, hbits, Option.map_some, extend_number]
        simp [Code.instruction?, hpattern, hd, hs, Operand.reduced]
    | _ => cases h
  | _ => cases h

theorem spells_implied {m : Mnemonic} {f : Form} {c : Code} (h : f.implied = .ok c)
    (hf : (m, f) ∈ [(.cqo, form [0x99] .qword), (.cdq, form [0x99] .dword), (.nop, form [0x90] .dword)]) :
    c.Spells ⟨m, []⟩ := by
  simp only [List.mem_cons, Prod.mk.injEq, List.not_mem_nil, or_false] at hf
  obtain ⟨rfl, rfl⟩ | ⟨rfl, rfl⟩ | ⟨rfl, rfl⟩ := hf
  · refine spells_of_implied [] h (by decide) rfl (fun _ w _ hw => ?_) rfl fun _ _ => rfl
    rw [hw (by simp [form]) rfl]
    rfl
  · refine spells_of_implied [] h (by decide) rfl (fun _ w _ hw => ?_) rfl fun _ _ => rfl
    rw [hw (by simp [form]) rfl]
    rfl
  · refine spells_of_implied [] h (by decide) rfl (fun _ w hp _ => ?_) rfl fun _ _ => rfl
    rw [hp rfl rfl]
    rfl

end MachineCode

end LongMode

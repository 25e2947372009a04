import LongMode.Proofs.Execution.Division

/-!
# Extensions keep the number

* `Instruction.operation_narrow`: an extension takes a register and a narrower register or location.
* `readView_execute_narrow`: what an extension leaves in its destination, also where its source is a part of it.
* `readView_movzx` and `signed_readView_movsx`: this is the number that was read, without a sign or with it.
* `execute_spreadSign` and `execute_idiv_spread`: the accumulator is extended to twice its width, and a division then
  has the signed accumulator for its dividend.
* `extensions_keep_number`: all of them.
-/

namespace LongMode

/-- The mnemonics that extend the accumulator into the data register, with the width of both. -/
inductive Mnemonic.SpreadsSign : Mnemonic → Width → Prop
  | cdq : SpreadsSign .cdq .dword
  | cqo : SpreadsSign .cqo .qword

theorem Mnemonic.SpreadsSign.upper_eq {mn : Mnemonic} {w : Width} (h : mn.SpreadsSign w) :
    w.upper = .low .rdx w := by
  cases h <;> rfl

theorem Instruction.operation_narrow {i : Instruction} {op : Operation} {f : View → Place → Operation}
    (hf : i.mnemonic.OnNarrow f) (h : i.operation = .ok op) :
    ∃ v p, op = f v p ∧ i.operands = [.register v, p.operand] ∧ p.width.bits < v.bits := by
  obtain ⟨mn, operands⟩ := i
  -- only two operands have an operation
  rcases operands with _ | ⟨d, _ | ⟨s, _ | ⟨o, rest⟩⟩⟩
  · cases hf <;> cases h
  · cases hf <;> cases h
  · cases hf with
    | movzx =>
      obtain ⟨v, p, rfl, rfl, rfl, -, -, hw⟩ := Operation.of_ofZeroExtension h
      exact ⟨v, p, rfl, rfl, hw⟩
    | movsx =>
      obtain ⟨v, p, rfl, rfl, rfl, -, -, hw⟩ := Operation.of_ofSignExtension h
      exact ⟨v, p, rfl, rfl, hw⟩
    | movsxd =>
      obtain ⟨v, p, rfl, rfl, rfl, hv, hp⟩ := Operation.of_ofDwordSignExtension h
      refine ⟨v, p, rfl, rfl, ?_⟩
      rw [View.bits, hv, hp]
      decide
  · cases hf <;> cases h

namespace Machine

open Transaction

variable {m m' : Machine} {i : Instruction} {mn : Mnemonic} {w : Width} {p : Place} {x : Nat}

/-! ### Into a wider register -/

/-- The source is read before the destination is written, so the two may overlap. -/
private theorem readView_execute_narrow (hm : m.valid = true) {f : View → Place → Operation}
    (hf : i.mnemonic.OnNarrow f) {g : Place → Nat → Int}
    (hrun : ∀ v p t, (f v p).run t = do return t.writeView v (g p (← t.readPlace p))) (h : m.execute i = .ok m') :
    ∃ v p x, i.operands = [.register v, p.operand] ∧ p.width.bits < v.bits ∧ m.readPlace p = .ok x ∧
      m'.readView v = truncate v.bits (g p x) := by
  obtain ⟨op, t, hop, ht, rfl⟩ := execute_eq_ok h
  obtain ⟨v, p, rfl, hoperands, hw⟩ := Instruction.operation_narrow hf hop
  rw [hrun] at ht
  obtain ⟨x, hread, ht⟩ := bind_eq_ok.1 ht
  cases ht
  rw [readPlace_start (valid_iff.1 hm).size_eq, mapError_eq_ok] at hread
  refine ⟨v, p, x, hoperands, hw, hread, ?_⟩
  show ((start m).writeView v (g p x)).result.readView v = _
  rw [result_writeView, readView_writeView]

theorem readView_movzx (hm : m.valid = true) (hi : i.mnemonic = .movzx) (h : m.execute i = .ok m') :
    ∃ v p, i.operands = [.register v, p.operand] ∧ m.readPlace p = .ok (m'.readView v) := by
  have hf : i.mnemonic.OnNarrow .extend := hi ▸ .movzx
  obtain ⟨v, p, x, hoperands, hw, hread, hview⟩ :=
    readView_execute_narrow (g := fun _ x => x) hm hf (fun _ _ _ => rfl) h
  have hx : x < 2 ^ v.bits := Nat.lt_of_lt_of_le (readPlace_lt hread) (Nat.pow_le_pow_right (by decide) (by omega))
  rw [truncate_of_lt hx] at hview
  exact ⟨v, p, hoperands, hview ▸ hread⟩

theorem signed_readView_movsx (hm : m.valid = true) (hi : i.mnemonic = .movsx ∨ i.mnemonic = .movsxd)
    (h : m.execute i = .ok m') :
    ∃ v p x, i.operands = [.register v, p.operand] ∧ m.readPlace p = .ok x ∧
      signed v.bits (m'.readView v) = signed p.width.bits x := by
  have hf : i.mnemonic.OnNarrow .extendSigned := by
    rcases hi with hi | hi
    · exact hi ▸ .movsx
    · exact hi ▸ .movsxd
  obtain ⟨v, p, x, hoperands, hw, hread, hview⟩ :=
    readView_execute_narrow (g := fun p x => signed p.width.bits x) hm hf (fun _ _ _ => rfl) h
  refine ⟨v, p, x, hoperands, hread, ?_⟩
  rw [hview, signed_truncate]
  exact signed_signed_of_le p.width.bits_pos (by omega) x

/-! ### Into the data register -/

private theorem execute_spreadSign (hmn : mn.SpreadsSign w) (m : Machine) :
    m.execute ⟨mn, []⟩ = .ok (m.writeView (.low .rdx w)
      ((if topBit w.bits (m.readView (.low .rax w)) then 2 ^ w.bits - 1 else 0 : Nat) : Int)).advance := by
  have hcheck : (Instruction.mk mn []).check = .ok () := by cases hmn <;> rfl
  have hop : (Instruction.mk mn []).operation = .ok (.spreadSign w) := by cases hmn <;> rfl
  have hcast : ((2 ^ w.bits - 1 : Nat) : Int) = 2 ^ w.bits - 1 := by
    rw [Int.natCast_sub (Nat.two_pow_pos w.bits)]
    simp
  rw [execute_of_operation hcheck hop, Nat.cast_ite, hcast]
  rfl

/-- The data register and the accumulator together read what the accumulator read. -/
theorem signed_dividend_spreadSign (hmn : mn.SpreadsSign w) (m : Machine) :
    ∃ m', m.execute ⟨mn, []⟩ = .ok m' ∧
      signed (2 * w.bits) (m'.dividend w) = signed w.bits (m.readView (.low .rax w)) ∧
      m.ChangesOnly { views := [.low .rdx w] } m' := by
  have hexecute := m.execute_spreadSign hmn
  obtain ⟨a, ha⟩ : ∃ a, m.readView (.low .rax w) = a := ⟨_, rfl⟩
  obtain ⟨k, hk⟩ : ∃ k, (if topBit w.bits a then 2 ^ w.bits - 1 else 0) = k := ⟨_, rfl⟩
  rw [ha, hk] at hexecute
  obtain ⟨m₁, hm₁⟩ : ∃ m₁, m.writeView (.low .rdx w) k = m₁ := ⟨_, rfl⟩
  rw [hm₁] at hexecute
  have hspread : signed (2 * w.bits) ((k * 2 ^ w.bits + a : Nat) : Int) = signed w.bits a :=
    hk ▸ signed_spread w.bits_pos (ha ▸ View.read_lt _ _)
  have hupper : m₁.readView (.low .rdx w) = k := by
    have hpos := Nat.two_pow_pos w.bits
    have hlt : k < 2 ^ w.bits := by
      rw [← hk]
      split <;> omega
    rw [← hm₁, readView_writeView]
    exact truncate_of_lt hlt
  have hcell : (View.low .rdx w).cell ≠ (View.low .rax w).cell := nofun
  have hlower : m₁.readView (.low .rax w) = a := by
    rw [← hm₁, readView_writeView_of_ne hcell, ha]
  have hdividend : m₁.dividend w = k * 2 ^ w.bits + a := by
    rw [dividend_eq_halves, hmn.upper_eq, hupper, hlower]
  have hchanges : m.ChangesOnly { views := [.low .rdx w] } m₁ := hm₁ ▸ .writeView List.mem_cons_self m k
  refine ⟨m₁.advance, hexecute, ?_, hchanges.bit_eq, hchanges.vector_eq, hchanges.flag_eq, hchanges.byte_eq⟩
  show signed (2 * w.bits) (m₁.dividend w) = _
  rw [hdividend, hspread, ha]

/-- A dividend within the width of the divisor has a quotient there, unless it is the least number and is divided by
-1. -/
theorem execute_idiv_of_dividend (hm : m.valid = true) {a : Int}
    (ha : signed (2 * p.width.bits) (m.dividend p.width) = signed p.width.bits a) (hread : m.readPlace p = .ok x)
    (hx : x ≠ 0) :
    ∃ q r, IsTruncatedQuotient (signed p.width.bits a) (signed p.width.bits x) q r ∧
      (signed p.width.bits a = -2 ^ (p.width.bits - 1) ∧ signed p.width.bits x = -1 →
        m.execute ⟨.idiv, [p.operand]⟩ = .error (.divideOverflow ⟨.idiv, [p.operand]⟩)) ∧
      (¬ (signed p.width.bits a = -2 ^ (p.width.bits - 1) ∧ signed p.width.bits x = -1) →
        ∃ m', m.execute ⟨.idiv, [p.operand]⟩ = .ok m' ∧ signed p.width.bits (m'.readView (.low .rax p.width)) = q ∧
          signed p.width.bits (m'.readView p.width.upper) = r) := by
  have hw := p.width.bits_pos
  have hlt : x < 2 ^ p.width.bits := readPlace_lt hread
  have hsize := (valid_iff.1 hm).size_eq
  obtain ⟨q, r, htruncated, -, hsome⟩ :=
    Word.divideSigned_exact hw (Nat.pos_of_ne_zero hx) hlt (m.dividend p.width)
  have hnone : (Word.divideSigned p.width.bits (m.dividend p.width) x).quotient = none ↔
      signed p.width.bits a = -2 ^ (p.width.bits - 1) ∧ signed p.width.bits x = -1 := by
    rw [Word.quotient_divideSigned_eq_none, ha]
    exact tdiv_leaves_range_iff (signed_ne_zero hx hlt) (le_signed hw a) (signed_lt hw a)
  rw [ha] at htruncated
  refine ⟨q, r, htruncated, ?_, ?_⟩
  · intro hleast
    exact execute_divide_of_quotient_eq_none .idiv (fun _ => rfl) hsize hread hx (hnone.2 hleast)
  · intro hleast
    obtain ⟨k, hk⟩ := Option.ne_none_iff_exists'.1 fun h => hleast (hnone.1 h)
    obtain ⟨hk_lt, hq, hrest_lt, hr⟩ := hsome k hk
    have hdivision : Word.divideSigned p.width.bits (m.dividend p.width) x =
        ⟨some k, (Word.divideSigned p.width.bits (m.dividend p.width) x).remainder⟩ := by
      rw [← hk]
    obtain ⟨m', hexecute, hhalves⟩ :=
      leavesHalves_divide .idiv (fun _ => rfl) hsize hread hx hdivision hrest_lt hk_lt
    refine ⟨m', hexecute, ?_, ?_⟩
    · rw [hhalves.lower_eq, hq]
    · rw [hhalves.upper_eq, hr]

/-! ### All of them -/

/-- An extension leaves the number that its source has held, as an unsigned number or as a signed one.  The accumulator
keeps its signed value when it is extended into the data register; a division after that gives the truncated quotient
and the remainder of this value, or overflows if it is the least one and is divided by -1. -/
theorem extensions_keep_number (hm : m.valid = true) :
    (∀ i m', i.mnemonic = .movzx → m.execute i = .ok m' →
      ∃ v p, i.operands = [.register v, p.operand] ∧ m.readPlace p = .ok (m'.readView v)) ∧
    (∀ i m', i.mnemonic = .movsx ∨ i.mnemonic = .movsxd → m.execute i = .ok m' →
      ∃ v p x, i.operands = [.register v, p.operand] ∧ m.readPlace p = .ok x ∧
        signed v.bits (m'.readView v) = signed p.width.bits x) ∧
    ∀ mn w, mn.SpreadsSign w → ∃ m₁, m.execute ⟨mn, []⟩ = .ok m₁ ∧
      signed (2 * w.bits) (m₁.dividend w) = signed w.bits (m.readView (.low .rax w)) ∧
      m.ChangesOnly { views := [.low .rdx w] } m₁ ∧
      ∀ p x, p.width = w → m₁.readPlace p = .ok x → x ≠ 0 →
        ∃ q r, IsTruncatedQuotient (signed w.bits (m.readView (.low .rax w))) (signed w.bits x) q r ∧
          (signed w.bits (m.readView (.low .rax w)) = -2 ^ (w.bits - 1) ∧ signed w.bits x = -1 →
            m₁.execute ⟨.idiv, [p.operand]⟩ = .error (.divideOverflow ⟨.idiv, [p.operand]⟩)) ∧
          (¬ (signed w.bits (m.readView (.low .rax w)) = -2 ^ (w.bits - 1) ∧ signed w.bits x = -1) →
            ∃ m₂, m₁.execute ⟨.idiv, [p.operand]⟩ = .ok m₂ ∧ signed w.bits (m₂.readView (.low .rax w)) = q ∧
              signed w.bits (m₂.readView (.low .rdx w)) = r) := by
  refine ⟨fun i m' hi h => readView_movzx hm hi h, fun i m' hi h => signed_readView_movsx hm hi h, ?_⟩
  intro mn w hmn
  obtain ⟨m₁, hexecute, hdividend, hchanges⟩ := signed_dividend_spreadSign hmn m
  refine ⟨m₁, hexecute, hdividend, hchanges, ?_⟩
  rintro p x rfl hread hx
  have hvalid := (valid_execute hm hexecute).1
  have hdivide := execute_idiv_of_dividend hvalid hdividend hread hx
  rw [hmn.upper_eq] at hdivide
  exact hdivide

/-- Out of a byte of its own destination, with all bits set; and the least signed number divided by -1. -/
theorem extensions_keep_number_least : ∃ m : Machine, m.valid = true ∧ m.readView (.low .rax .dword) = 0x80000000 ∧
    m.readView (.high .ch) = 255 ∧
    (∃ m', m.execute ⟨.movzx, [.register (.low .rcx .dword), .register (.high .ch)]⟩ = .ok m' ∧
      m'.readView (.low .rcx .dword) = 255) ∧
    (∃ m', m.execute ⟨.movsx, [.register (.low .rcx .dword), .register (.high .ch)]⟩ = .ok m' ∧
      signed 32 (m'.readView (.low .rcx .dword)) = -1) ∧
    ∃ m₁, m.execute ⟨.cdq, []⟩ = .ok m₁ ∧ signed 64 (m₁.dividend .dword) = -2 ^ 31 ∧
      m₁.execute ⟨.idiv, [.register (.low .rcx .dword)]⟩ =
        .error (.divideOverflow ⟨.idiv, [.register (.low .rcx .dword)]⟩) := by
  obtain ⟨m, hm⟩ : ∃ m : Machine,
      m = ((fresh 16).writeView (.low .rax .dword) 0x80000000).writeView (.low .rcx .dword) (-1) := ⟨_, rfl⟩
  have hvalid : m.valid = true := by
    rw [hm]
    decide
  have hrax : m.readView (.low .rax .dword) = 0x80000000 := by rw [hm]; rfl
  have hrcx : m.readView (.low .rcx .dword) = 0xffffffff := by rw [hm]; rfl
  have hch : m.readView (.high .ch) = 255 := by rw [hm]; rfl
  obtain ⟨hzero, hsign, hdata⟩ := extensions_keep_number hvalid
  refine ⟨m, hvalid, hrax, hch, ?_, ?_, ?_⟩
  · have h : ∃ m', m.execute ⟨.movzx, [.register (.low .rcx .dword), .register (.high .ch)]⟩ = .ok m' := by
      rw [hm]
      exact ⟨_, by rfl⟩
    obtain ⟨m', h⟩ := h
    obtain ⟨v, p, hoperands, hread⟩ := hzero _ m' rfl h
    cases p <;> cases hoperands
    exact ⟨m', h, (Except.ok.inj hread).symm.trans hch⟩
  · have h : ∃ m', m.execute ⟨.movsx, [.register (.low .rcx .dword), .register (.high .ch)]⟩ = .ok m' := by
      rw [hm]
      exact ⟨_, by rfl⟩
    obtain ⟨m', h⟩ := h
    obtain ⟨v, p, x, hoperands, hread, hsigned⟩ := hsign _ m' (.inl rfl) h
    cases p <;> cases hoperands
    obtain rfl : 255 = x := hch.symm.trans (Except.ok.inj hread)
    exact ⟨m', h, hsigned⟩
  · obtain ⟨m₁, hexecute, hdividend, hchanges, hdivide⟩ := hdata .cdq .dword .cdq
    have hkept : m₁.readView (.low .rcx .dword) = 0xffffffff :=
      (hchanges.readView_eq (by decide)).trans hrcx
    obtain ⟨q, r, -, hoverflow, -⟩ :=
      hdivide (.register (.low .rcx .dword)) 0xffffffff rfl (congrArg Except.ok hkept) (by decide)
    rw [hrax] at hdividend hoverflow
    exact ⟨m₁, hexecute, hdividend, hoverflow ⟨by decide, by decide⟩⟩

end Machine

end LongMode

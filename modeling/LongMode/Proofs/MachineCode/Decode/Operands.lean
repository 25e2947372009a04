import LongMode.Proofs.MachineCode.Decode.Unique

/-!
# Operands in machine code

Where the operands of an instruction stand in its machine code, and that a processor finds them there.

* `Instruction.fieldOperands`: the operand of the r/m field and that of the reg field, read off the instruction.
* `ModRm.Says`: the fields of a ModRM byte say these operands, by the numbers of registers and by the rule for
  addresses (`View.ofNumber`, `ModRm.address?`).
* `SaysImmediate`: bytes say an immediate in two's complement, with one byte where that is enough and there is a form
  for it.
* `Code.Holds`: machine code says the operands of an instruction.  It follows from the form that an encoder chooses
  (`Laid.holds`), so for each encoder only the choice is left (`holds_encodeArithmetic` to `holds_encodePackedAdd`).
* `holds_code`: the machine code of an instruction says its operands.
-/

namespace LongMode

/-! ### Fields -/

/-- The operand is the register with a number; a byte register is chosen by the presence of REX too. -/
def Operand.IsNumbered (hasRex : Bool) (n : Fin 16) : Operand → Prop
  | .register v => View.ofNumber hasRex v.width n = v
  | .vector x => x.number = n
  | _ => False

/-- The fields say an operand in r/m, and one in reg unless reg holds a digit of the opcode. -/
structure ModRm.Says (rex : Option Rex) (m : ModRm) (rm : Operand) (reg : Option Operand) : Prop where
  reg : ∀ o, reg = some o → o.IsNumbered rex.isSome (extend (rex.getD .absent).r m.reg)
  register : m.mode = 3 → rm.IsNumbered rex.isSome (extend (rex.getD .absent).b m.rm)
  memory : m.mode ≠ 3 → ∃ l, rm = .memory l ∧ m.address? (rex.getD .absent) = some l.address

/-- The form that counts from the instruction pointer says no location. -/
theorem ModRm.Says.not_relative {rex : Option Rex} {m : ModRm} {rm : Operand} {reg : Option Operand}
    (h : m.Says rex rm reg) (hm : m.IsLaidOut) : ¬ (m.mode = 0 ∧ m.rm = 5) := by
  rintro ⟨hmode, hrm⟩
  have hplain : m.mode ≠ 3 := by rw [hmode]; decide
  have hsib : m.sib = none := by
    refine Option.not_isSome_iff_eq_none.1 fun hs => ?_
    have hfour := (hm.sib.1 hs).2
    rw [hrm] at hfour
    exact absurd hfour (by decide)
  obtain ⟨l, -, haddress⟩ := h.memory hplain
  rw [ModRm.address?, if_neg hplain, hsib] at haddress
  dsimp only at haddress
  rw [if_pos ⟨hmode, hrm⟩] at haddress
  cases haddress

/-- The second operand stands in r/m, wherever it is. -/
def Mnemonic.readsRm : Mnemonic → Bool
  | movzx | movsx | movsxd | lea | cmove | cmovne | imul | bsf | bsr | paddd => true
  | _ => false

/-- The operands in r/m and in reg, where there is a ModRM byte.  Immediates and counts have no field in it. -/
def Instruction.fieldOperands (i : Instruction) : Option (Operand × Option Operand) :=
  match i.operands with
  | [o] => some (o, none)
  | [d, s] =>
    if s.isImmediate || i.mnemonic.isShift then some (d, none)
    else if s.isMemory || i.mnemonic.readsRm then some (s, some d)
    else some (d, some s)
  | [d, s, _] => some (s, some d)
  | _ => none

/-! ### Immediates -/

/-- There is a form with an immediate of one byte beside the one with a wide immediate. -/
def Mnemonic.hasShortImmediate : Mnemonic → Bool
  | add | or | adc | sbb | and | sub | xor | cmp | push | imul => true
  | _ => false

/-- The bytes say an immediate at a width, and they are one byte if that is enough and there is a form for it. -/
structure SaysImmediate (short : Bool) (z : Int) (n : Nat) (bytes : List UInt8) : Prop where
  size : bytes.length ∈ [1, 2, 4, 8]
  value : signedOf bytes = signed n z
  short : short = true → fitsSigned 8 (signed n z) = true → bytes.length = 1

/-- The count of a shift that an opcode of its own implies. -/
def Instruction.ImpliesCount (i : Instruction) (z : Int) : Prop := i.mnemonic.isShift = true ∧ z = 1

/-- Machine code says the operands of an instruction, in the fields of its ModRM byte and in its immediate. -/
structure Code.Holds (c : Code) (i : Instruction) : Prop where
  fields : ∀ m, c.modRm = some m → ∃ rm reg, i.fieldOperands = some (rm, reg) ∧ m.Says c.rex rm reg
  immediate : ∀ z n, .immediate z n ∈ i.operands → ¬ i.ImpliesCount z →
    SaysImmediate i.mnemonic.hasShortImmediate z n c.immediate

namespace MachineCode

variable {c : Code} {i : Instruction} {short : Bool} {z : Int} {n : Nat} {w : Width}

theorem saysImmediate_byte (h : fitsSigned 8 (signed n z) = true) :
    SaysImmediate short z n (signedBytes 1 (signed n z)) :=
  ⟨by rw [length_signedBytes]; decide, signedOf_signedBytes (by decide) h, fun _ _ => length_signedBytes 1 _⟩

private theorem fullSize_mem (w : Width) : fullSize w ∈ [1, 2, 4, 8] := by cases w <;> decide

/-- A wide immediate is chosen where one byte is not enough. -/
theorem saysImmediate_wide {bytes : List UInt8} (hw : w ≠ .byte) (h : ¬ fitsSigned 8 (signed w.bits z) = true)
    (hbytes : wideImmediate w (signed w.bits z) = .ok bytes) : SaysImmediate short z w.bits bytes := by
  obtain ⟨hlength, hvalue⟩ := wideImmediate_eq_ok hw hbytes
  exact ⟨hlength ▸ fullSize_mem w, hvalue, fun _ h8 => absurd h8 h⟩

/-- Without a form for one byte, the immediate takes what the width asks for. -/
theorem saysImmediate_full {bytes : List UInt8} (hlength : fullSize w = bytes.length)
    (hvalue : signedOf bytes = signed w.bits z) : SaysImmediate false z w.bits bytes :=
  ⟨hlength ▸ fullSize_mem w, hvalue, nofun⟩

theorem saysImmediate_register : SaysImmediate false z w.bits (signedBytes w.bytes (signed w.bits z)) := by
  refine ⟨?_, signedOf_signedBytes (by cases w <;> decide) (fitsSigned_signed w z), nofun⟩
  rw [length_signedBytes]
  cases w <;> decide

/-! ### Forms -/

def RegOperand.operand? : RegOperand → Option Operand
  | register v => some (.register v)
  | digit _ => none

theorem width_ofNumber (hasRex : Bool) (w : Width) (n : Fin 16) : (View.ofNumber hasRex w n).width = w := by
  unfold View.ofNumber
  split
  · rename_i h
    exact h.1.symm
  · rfl

variable {f : Form} {reg : RegOperand} {p : Place} {bytes : List UInt8}

theorem Form.Fills.saysOperands (h : f.Fills reg p c) {m : ModRm} (hm : c.modRm = some m) :
    m.Says c.rex p.operand reg.operand? := by
  obtain ⟨m', hm', -, hreg, hplace⟩ := h.modRm
  obtain rfl : m' = m := Option.some.inj (hm'.symm.trans hm)
  refine ⟨fun o ho => ?_, fun hmode => ?_, fun hmode => ?_⟩
  · cases reg with
    | register v =>
      cases ho
      rw [hreg]
      exact h.register v rfl
    | digit d => cases ho
  · rw [ModRm.place?, if_pos hmode] at hplace
    rw [← Option.some.inj hplace]
    show View.ofNumber _ (View.width _) _ = _
    rw [width_ofNumber]
  · rw [ModRm.place?, if_neg hmode] at hplace
    obtain ⟨a, ha, hp⟩ := Option.map_eq_some_iff.1 hplace
    rw [← hp]
    exact ⟨_, rfl, ha⟩

/-- Machine code with an immediate, and without a ModRM byte or with one that was filled with these operands. -/
structure Laid (c : Code) (reg : RegOperand) (p : Place) (bytes : List UInt8) : Prop where
  modRm : c.modRm = none ∨ ∃ f : Form, f.withModRm reg (.ofPlace p) = .ok c
  immediate : c.immediate = bytes

theorem laid_of_modRm (h : f.withModRm reg (.ofPlace p) = .ok c) : Laid c reg p f.immediate := by
  refine ⟨.inr ⟨f, h⟩, ?_⟩
  obtain ⟨r, -, h⟩ := bind_eq_ok.1 h
  obtain ⟨m, -, h⟩ := bind_eq_ok.1 h
  cases h
  rfl

theorem fields_of_implied (h : f.implied = .ok c) : c.modRm = none ∧ c.immediate = f.immediate := by
  obtain ⟨r, -, h⟩ := bind_eq_ok.1 h
  cases h
  exact ⟨rfl, rfl⟩

theorem laid_of_implied (h : f.implied = .ok c) : Laid c reg p f.immediate :=
  ⟨.inl (fields_of_implied h).1, (fields_of_implied h).2⟩

theorem laid_of_opcodeRegister {v : View} (h : f.withOpcodeRegister v = .ok c) : Laid c reg p f.immediate := by
  obtain ⟨r, -, h⟩ := bind_eq_ok.1 h
  cases h
  exact ⟨.inl rfl, rfl⟩

/-- The short form for the accumulator has the immediate of the other. -/
theorem laid_of_accumulator {f' : Form} {digit : Fin 8}
    (h : (if p.isAccumulator then (f.withImmediate bytes).implied
      else (f'.withImmediate bytes).withModRm (.digit digit) (.ofPlace p)) = .ok c) : Laid c (.digit digit) p bytes := by
  split at h
  · exact laid_of_implied h
  · exact laid_of_modRm h

theorem Laid.fields (h : Laid c reg p bytes) (hp : ∀ l, p = .memory l → l.address.WellFormed)
    (hi : i.fieldOperands = some (p.operand, reg.operand?)) :
    ∀ m, c.modRm = some m → ∃ rm reg, i.fieldOperands = some (rm, reg) ∧ m.Says c.rex rm reg := by
  intro m hm
  obtain hnone | ⟨f, hf⟩ := h.modRm
  · rw [hnone] at hm
    cases hm
  · exact ⟨_, _, hi, (Form.fills_of_withModRm hp hf).saysOperands hm⟩

/-- Machine code that is laid out for the operands of an instruction holds them. -/
theorem Laid.holds (h : Laid c reg p bytes) (hp : ∀ l, p = .memory l → l.address.WellFormed)
    (hi : i.fieldOperands = some (p.operand, reg.operand?))
    (himmediate : ∀ z n, .immediate z n ∈ i.operands → ¬ i.ImpliesCount z →
      SaysImmediate i.mnemonic.hasShortImmediate z n bytes) : c.Holds i :=
  ⟨h.fields hp hi, fun z n hz hone => h.immediate ▸ himmediate z n hz hone⟩

/-- An instruction without immediates. -/
theorem Laid.holds_plain (h : Laid c reg p bytes) (hp : ∀ l, p = .memory l → l.address.WellFormed)
    (hi : i.fieldOperands = some (p.operand, reg.operand?)) (hplain : ∀ o ∈ i.operands, o.isImmediate = false) :
    c.Holds i :=
  h.holds hp hi fun _ _ hz => absurd (hplain _ hz) (by simp [Operand.isImmediate])

private theorem noImmediate_place (p : Place) : ∀ o ∈ [p.operand], o.isImmediate = false := by
  cases p <;> simp [Place.operand, Operand.isImmediate]

private theorem noImmediate_places (p q : Place) : ∀ o ∈ [p.operand, q.operand], o.isImmediate = false :=
  List.forall_mem_cons.2 ⟨noImmediate_place p _ List.mem_cons_self, noImmediate_place q⟩

/-! ### Two operands of one width -/

variable {mn : Mnemonic} {d s o : Operand} {digit : Fin 8}

/-- A pair is encoded by its shape: a register stands in reg, and the other operand in r/m. -/
theorem holds_of_requirePair {k : Pair → Except EncodeCause Code} (hm : mn.isShift = false ∧ mn.readsRm = false)
    (hwf : WellFormedAddresses [d, s]) (hcode : (requirePair d s >>= k) = .ok c)
    (hstore : ∀ p v, k (.store p v) = .ok c → ∃ bytes, Laid c (.register v) p bytes)
    (hload : ∀ v l, k (.load v l) = .ok c → ∃ bytes, Laid c (.register v) (.memory l) bytes)
    (hconstant : ∀ p z, k (.constant p z) = .ok c →
      ∃ digit bytes, Laid c (.digit digit) p bytes ∧ SaysImmediate mn.hasShortImmediate z p.width.bits bytes) :
    c.Holds ⟨mn, [d, s]⟩ := by
  obtain ⟨pair, hpair, h⟩ := bind_eq_ok.1 hcode
  rw [requirePair_eq_ok] at hpair
  clear hcode
  cases pair with
  | store p v =>
    obtain ⟨rfl, rfl, -⟩ := hpair
    obtain ⟨bytes, hlaid⟩ := hstore p v h
    refine hlaid.holds_plain (wellFormed_place hwf List.mem_cons_self) ?_ ?_
    · simp [Instruction.fieldOperands, Operand.isImmediate, Operand.isMemory, RegOperand.operand?, hm]
    · exact noImmediate_places p (.register v)
  | load v l =>
    obtain ⟨rfl, rfl, -⟩ := hpair
    obtain ⟨bytes, hlaid⟩ := hload v l h
    refine hlaid.holds_plain (by rintro _ ⟨⟩; exact hwf l (by simp)) ?_ ?_
    · simp [Instruction.fieldOperands, Operand.isImmediate, Operand.isMemory, Place.operand, RegOperand.operand?, hm]
    · exact noImmediate_places (.register v) (.memory l)
  | constant p z =>
    obtain ⟨rfl, rfl⟩ := hpair
    obtain ⟨digit, bytes, hlaid, hsaid⟩ := hconstant p z h
    refine hlaid.holds (wellFormed_place hwf List.mem_cons_self) rfl fun z' n hz _ => ?_
    obtain ⟨rfl, rfl⟩ : z' = z ∧ n = p.width.bits := by cases p <;> simpa [Place.operand] using hz
    exact hsaid

theorem holds_encodeArithmetic (hm : mn.isShift = false ∧ mn.readsRm = false) (hwf : WellFormedAddresses [d, s])
    (h : encodeArithmetic digit d s = .ok c) : c.Holds ⟨mn, [d, s]⟩ := by
  refine holds_of_requirePair hm hwf h (fun p v h => ⟨_, laid_of_modRm h⟩)
    (fun v l h => ⟨_, laid_of_modRm (p := .memory l) h⟩) fun p z h => ⟨digit, ?_⟩
  obtain ⟨value, hvalue, h⟩ := bind_eq_ok.1 h
  obtain ⟨-, rfl⟩ := immediateValue_eq_ok.1 hvalue
  split at h
  · rename_i hb
    have h8 : fitsSigned 8 (signed p.width.bits z) = true := by
      rw [hb]
      exact fitsSigned_signed .byte z
    refine ⟨_, laid_of_accumulator h, ?_⟩
    exact saysImmediate_byte h8
  · rename_i hb
    split at h
    · rename_i h8
      exact ⟨_, laid_of_modRm h, saysImmediate_byte h8⟩
    · rename_i h8
      obtain ⟨bytes, hbytes, h⟩ := bind_eq_ok.1 h
      refine ⟨_, laid_of_accumulator h, ?_⟩
      exact saysImmediate_wide hb h8 hbytes

theorem holds_encodeTest (hwf : WellFormedAddresses [d, s]) (h : encodeTest d s = .ok c) : c.Holds ⟨.test, [d, s]⟩ := by
  refine holds_of_requirePair ⟨rfl, rfl⟩ hwf h (fun p v h => ⟨_, laid_of_modRm h⟩)
    (fun v l h => ⟨_, laid_of_modRm (p := .memory l) h⟩) fun p z h => ⟨0, ?_⟩
  obtain ⟨value, hvalue, h⟩ := bind_eq_ok.1 h
  obtain ⟨-, rfl⟩ := immediateValue_eq_ok.1 hvalue
  obtain ⟨bytes, hspec, h⟩ := exists_fullImmediate h
  refine ⟨_, laid_of_accumulator h, ?_⟩
  exact saysImmediate_full hspec.1 hspec.2

theorem holds_encodeMove (hwf : WellFormedAddresses [d, s]) (h : encodeMove d s = .ok c) : c.Holds ⟨.mov, [d, s]⟩ := by
  refine holds_of_requirePair ⟨rfl, rfl⟩ hwf h (fun p v h => ⟨_, laid_of_modRm h⟩)
    (fun v l h => ⟨_, laid_of_modRm (p := .memory l) h⟩) fun p z h => ⟨0, ?_⟩
  obtain ⟨value, hvalue, h⟩ := bind_eq_ok.1 h
  obtain ⟨-, rfl⟩ := immediateValue_eq_ok.1 hvalue
  cases p with
  | register v => exact ⟨_, laid_of_opcodeRegister h, saysImmediate_register⟩
  | memory l =>
    obtain ⟨bytes, hspec, h⟩ := exists_fullImmediate h
    exact ⟨_, laid_of_modRm (p := .memory l) h, saysImmediate_full hspec.1 hspec.2⟩

/-- An exchange that has a short form names one register there and has no ModRM byte. -/
theorem holds_encodeExchange (hwf : WellFormedAddresses [d, s]) (h : encodeExchange d s = .ok c) :
    c.Holds ⟨.xchg, [d, s]⟩ := by
  obtain ⟨q, -, h⟩ := bind_eq_ok.1 h
  refine holds_of_requirePair ⟨rfl, rfl⟩ hwf h ?_ ?_ ?_
  · intro p v h
    cases p with
    | register u =>
      dsimp only at h
      split at h
      · exact ⟨_, laid_of_opcodeRegister h⟩
      · exact ⟨_, laid_of_modRm (p := .register u) h⟩
    | memory l => exact ⟨_, laid_of_modRm (p := .memory l) h⟩
  · intro v l h
    exact ⟨_, laid_of_modRm (p := .memory l) h⟩
  · intro p z h
    cases h

/-! ### A register and a source in r/m -/

theorem holds_of_read {v : View} (hm : mn.isShift = false ∧ mn.readsRm = true)
    (hwf : WellFormedAddresses [.register v, p.operand]) (h : f.withModRm (.register v) (.ofPlace p) = .ok c) :
    c.Holds ⟨mn, [.register v, p.operand]⟩ := by
  refine (laid_of_modRm h).holds_plain (wellFormed_place hwf (by simp)) ?_ (noImmediate_places (.register v) p)
  cases p <;> simp [Instruction.fieldOperands, Place.operand, Operand.isImmediate, RegOperand.operand?, hm]

theorem holds_encodeExtension {opcode : UInt8} (hm : mn.isShift = false ∧ mn.readsRm = true)
    (hwf : WellFormedAddresses [d, s]) (h : encodeExtension opcode d s = .ok c) : c.Holds ⟨mn, [d, s]⟩ := by
  simp only [encodeExtension, bind_eq_ok, requirePlace_eq_ok, requireRegister_eq_ok] at h
  obtain ⟨p, rfl, v, ⟨rfl, -⟩, h⟩ := h
  split at h
  · exact holds_of_read hm hwf h
  · cases h

theorem holds_encodeSignExtension (hwf : WellFormedAddresses [d, s]) (h : encodeSignExtension d s = .ok c) :
    c.Holds ⟨.movsxd, [d, s]⟩ := by
  simp only [encodeSignExtension, bind_eq_ok, requirePlace_eq_ok, requireRegister_eq_ok] at h
  obtain ⟨p, rfl, v, ⟨rfl, -⟩, h⟩ := h
  split at h
  · exact holds_of_read ⟨rfl, rfl⟩ hwf h
  · cases h

theorem holds_encodeLoadAddress (hwf : WellFormedAddresses [d, s]) (h : encodeLoadAddress d s = .ok c) :
    c.Holds ⟨.lea, [d, s]⟩ := by
  simp only [encodeLoadAddress, bind_eq_ok, requireRegister_eq_ok] at h
  obtain ⟨v, ⟨rfl, -⟩, h⟩ := h
  cases s with
  | memory l => exact holds_of_read (p := .memory l) ⟨rfl, rfl⟩ hwf h
  | _ => cases h

theorem holds_encodeRegisterSource {opcode : List UInt8} (hm : mn.isShift = false ∧ mn.readsRm = true)
    (hwf : WellFormedAddresses [d, s]) (h : encodeRegisterSource opcode d s = .ok c) : c.Holds ⟨mn, [d, s]⟩ := by
  simp only [encodeRegisterSource, bind_eq_ok, requirePlace_eq_ok, requireRegister_eq_ok] at h
  obtain ⟨v, ⟨rfl, -⟩, p, rfl, -, -, h⟩ := h
  exact holds_of_read hm hwf h

/-- A product by a constant has its source in r/m, and the constant behind it. -/
theorem holds_encodeMultiply {factor : Operand} (hwf : WellFormedAddresses [d, s, factor])
    (h : encodeMultiply d s factor = .ok c) : c.Holds ⟨.imul, [d, s, factor]⟩ := by
  simp only [encodeMultiply, bind_eq_ok, requirePlace_eq_ok, requireRegister_eq_ok] at h
  obtain ⟨v, ⟨rfl, hv⟩, p, rfl, -, -, h⟩ := h
  have hp := wellFormed_place hwf (List.mem_cons_of_mem _ (List.mem_cons_self (a := p.operand)))
  cases factor with
  | immediate z n =>
    dsimp only at h
    split at h
    · cases h
    · rename_i hn
      obtain rfl : n = v.bits := Classical.not_not.1 hn
      obtain ⟨value, hvalue, h⟩ := bind_eq_ok.1 h
      obtain ⟨-, rfl⟩ := immediateValue_eq_ok.1 hvalue
      obtain ⟨bytes, hlaid, hsaid⟩ : ∃ bytes, Laid c (.register v) p bytes ∧ SaysImmediate true z v.bits bytes := by
        split at h
        · rename_i h8
          exact ⟨_, laid_of_modRm h, saysImmediate_byte h8⟩
        · rename_i h8
          obtain ⟨bytes, hbytes, h⟩ := bind_eq_ok.1 h
          exact ⟨_, laid_of_modRm h, saysImmediate_wide (ne_byte_of_mem hv) h8 hbytes⟩
      refine hlaid.holds hp rfl fun z' n hz _ => ?_
      obtain ⟨rfl, rfl⟩ : z' = z ∧ n = v.bits := by cases p <;> simpa [Place.operand] using hz
      exact hsaid
  | _ => cases h

/-! ### One operand -/

theorem holds_encodePush (hwf : WellFormedAddresses [o]) (h : encodePush o = .ok c) : c.Holds ⟨.push, [o]⟩ := by
  unfold encodePush at h
  split at h
  · cases h
  · rename_i hbits
    have hbits := Classical.not_not.1 hbits
    cases o with
    | register v =>
      have hlaid : Laid c (.digit 6) (.register v) [] := laid_of_opcodeRegister h
      exact hlaid.holds_plain (by simp) rfl (noImmediate_place (.register v))
    | memory l =>
      exact (laid_of_modRm (p := .memory l) h).holds_plain (wellFormed_place hwf List.mem_cons_self) rfl
        (noImmediate_place (.memory l))
    | immediate z n =>
      obtain rfl : n = 64 := hbits
      obtain ⟨value, hvalue, h⟩ := bind_eq_ok.1 h
      obtain ⟨-, rfl⟩ := immediateValue_eq_ok.1 hvalue
      obtain ⟨hmod, hsaid⟩ : c.modRm = none ∧ SaysImmediate true z 64 c.immediate := by
        split at h
        · rename_i h8
          obtain ⟨hmod, himmediate⟩ := fields_of_implied h
          exact ⟨hmod, himmediate ▸ saysImmediate_byte h8⟩
        · rename_i h8
          obtain ⟨bytes, hbytes, h⟩ := bind_eq_ok.1 h
          obtain ⟨hmod, himmediate⟩ := fields_of_implied h
          exact ⟨hmod, himmediate ▸ saysImmediate_wide (w := .qword) (by decide) h8 hbytes⟩
      refine ⟨fun m hm => absurd (hmod.symm.trans hm) nofun, fun z' n hz _ => ?_⟩
      obtain ⟨rfl, rfl⟩ : z' = z ∧ n = 64 := by simpa using hz
      exact hsaid
    | vector x => cases h

theorem holds_encodePop (hwf : WellFormedAddresses [o]) (h : encodePop o = .ok c) : c.Holds ⟨.pop, [o]⟩ := by
  simp only [encodePop, bind_eq_ok, requirePlace_eq_ok] at h
  obtain ⟨p, rfl, h⟩ := h
  obtain ⟨bytes, hlaid⟩ : ∃ bytes, Laid c (.digit 0) p bytes := by
    split at h
    · cases h
    · cases p with
      | register v => exact ⟨_, laid_of_opcodeRegister h⟩
      | memory l => exact ⟨_, laid_of_modRm (p := .memory l) h⟩
  exact hlaid.holds_plain (wellFormed_place hwf List.mem_cons_self) rfl (noImmediate_place p)

theorem holds_encodeUnary {a b : UInt8} (hwf : WellFormedAddresses [o]) (h : encodeUnary a b digit o = .ok c) :
    c.Holds ⟨mn, [o]⟩ := by
  simp only [encodeUnary, bind_eq_ok, requirePlace_eq_ok] at h
  obtain ⟨p, rfl, h⟩ := h
  exact (laid_of_modRm h).holds_plain (wellFormed_place hwf List.mem_cons_self) rfl (noImmediate_place p)

/-! ### Shifts -/

private theorem eq_one_of_signed (hfits : fits 8 z = true) (h : signed 8 z = 1) : z = 1 := by
  simp only [fits, Bool.and_eq_true, decide_eq_true_eq] at hfits
  unfold signed at h
  dsimp only at h
  split at h <;> omega

/-- The count of a shift is a byte, unless it is cl or one. -/
theorem holds_encodeShift (hm : mn.isShift = true) (hn : ∀ z n, s = .immediate z n → n = 8)
    (hwf : WellFormedAddresses [d, s]) (h : encodeShift digit d s = .ok c) : c.Holds ⟨mn, [d, s]⟩ := by
  simp only [encodeShift, bind_eq_ok, requirePlace_eq_ok] at h
  obtain ⟨p, rfl, h⟩ := h
  have hp := wellFormed_place hwf (List.mem_cons_self (a := p.operand))
  have hfields : (Instruction.mk mn [p.operand, s]).fieldOperands =
      some (p.operand, (RegOperand.digit digit).operand?) := by
    simp [Instruction.fieldOperands, RegOperand.operand?, hm]
  cases s with
  | register v =>
    dsimp only at h
    split at h
    · cases h
    · exact (laid_of_modRm h).holds_plain hp hfields (noImmediate_places p (.register v))
  | immediate z n =>
    obtain rfl : n = 8 := hn z n rfl
    obtain ⟨value, hvalue, h⟩ := bind_eq_ok.1 h
    obtain ⟨hfits, rfl⟩ := immediateValue_eq_ok.1 hvalue
    have hsame : ∀ z' n, .immediate z' n ∈ [p.operand, .immediate z 8] → z' = z ∧ n = 8 := by
      intro z' n hz
      cases p <;> simpa [Place.operand] using hz
    split at h
    · rename_i hone
      refine (laid_of_modRm h).holds hp hfields fun z' n hz himplied => ?_
      obtain ⟨rfl, rfl⟩ := hsame z' n hz
      exact absurd ⟨hm, eq_one_of_signed hfits hone⟩ himplied
    · refine (laid_of_modRm h).holds hp hfields fun z' n hz _ => ?_
      obtain ⟨rfl, rfl⟩ := hsame z' n hz
      exact saysImmediate_byte (fitsSigned_signed .byte z')
  | _ => cases h

/-! ### Vector registers -/

/-- Both fields hold registers, the destination in reg. -/
theorem holds_encodePackedAdd (h : encodePackedAdd d s = .ok c) : c.Holds ⟨.paddd, [d, s]⟩ := by
  cases d with
  | vector x =>
    cases s with
    | vector y =>
      obtain ⟨hbits, hmod⟩ := fields_of_packedAdd h
      refine ⟨fun m hm => ⟨.vector y, some (.vector x), rfl, ?_⟩, by simp⟩
      obtain rfl := Option.some.inj (hmod.symm.trans hm)
      have hbits : c.rex.getD .absent = _ := hbits
      refine ⟨?_, fun _ => ?_, fun hmode => absurd rfl hmode⟩
      · rintro _ ⟨⟩
        rw [hbits]
        exact (extend_number x.number).symm
      · rw [hbits]
        exact (extend_number y.number).symm
    | _ => cases h
  | _ => cases h

end MachineCode

namespace Instruction

open MachineCode

/-- The machine code of an instruction holds its operands. -/
theorem holds_code {i : Instruction} {c : Code} (hi : i.WellFormed) (h : i.code = .ok c) : c.Holds i := by
  obtain ⟨-, h⟩ := code_eq_ok.1 h
  obtain ⟨m, operands⟩ := i
  have hc := hi.count
  have hwf : WellFormedAddresses operands := hi.address
  dsimp only at h hc
  match operands, hi, hc, hwf with
  | [], _, hc, _ =>
    cases m with
    | cqo | cdq | nop =>
      obtain ⟨hmod, -⟩ := fields_of_implied h
      exact ⟨fun m hm => absurd (hmod.symm.trans hm) nofun, by simp⟩
    | _ => simp [Mnemonic.operandCounts] at hc
  | [o], _, hc, hwf =>
    cases m with
    | push => exact holds_encodePush hwf h
    | pop => exact holds_encodePop hwf h
    | inc | dec | neg | not | mul | imul | div | idiv => exact holds_encodeUnary hwf h
    | _ => simp [Mnemonic.operandCounts] at hc
  | [d, s], hi, hc, hwf =>
    cases m with
    | mov => exact holds_encodeMove hwf h
    | movzx | movsx => exact holds_encodeExtension ⟨rfl, rfl⟩ hwf h
    | movsxd => exact holds_encodeSignExtension hwf h
    | lea => exact holds_encodeLoadAddress hwf h
    | xchg => exact holds_encodeExchange hwf h
    | cmove | cmovne | bsf | bsr | imul => exact holds_encodeRegisterSource ⟨rfl, rfl⟩ hwf h
    | add | or | adc | sbb | and | sub | xor | cmp => exact holds_encodeArithmetic ⟨rfl, rfl⟩ hwf h
    | test => exact holds_encodeTest hwf h
    | shl | shr | sar | rol | ror => exact holds_encodeShift rfl (hi.count_bits rfl) hwf h
    | paddd => exact holds_encodePackedAdd h
    | _ => simp [Mnemonic.operandCounts] at hc
  | [d, s, f], _, hc, hwf =>
    cases m with
    | imul => exact holds_encodeMultiply hwf h
    | _ => simp [Mnemonic.operandCounts] at hc
  | d :: s :: f :: g :: rest, _, hc, _ => cases m <;> simp [Mnemonic.operandCounts] at hc

end Instruction

end LongMode

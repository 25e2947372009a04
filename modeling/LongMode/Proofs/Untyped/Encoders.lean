import LongMode.Proofs.Untyped.Frame

/-!
# The encoder needs no types

On the untyped form of an instruction that has as many operands as its mnemonic takes, the untyped encoder gives what
the library gives: the same bytes, or the same error (`encode_erase`).  One lemma for each encoder, over lemmas for the
checks of operands that say what is known behind a check.
-/

namespace LongMode.Untyped

open MachineCode

variable {i : LongMode.Instruction}

/-! ### Operand checks -/

private theorem single_operands (m : Mnemonic) (o : LongMode.Operand) :
    (single (LongMode.Instruction.mk m [o]).erase.operands : Coding _) = .ok o.erase := single_erase rfl

private theorem double_operands (m : Mnemonic) (d s : LongMode.Operand) :
    (double (LongMode.Instruction.mk m [d, s]).erase.operands : Coding _) = .ok (d.erase, s.erase) := double_erase rfl

private theorem immediateValue_erase (w : Width) (z : Int) :
    immediateValue i.erase z w.bits = about i (MachineCode.immediateValue w z) := by
  simp only [immediateValue, MachineCode.immediateValue, fits_eq w.bits_pos, signed_eq w.bits_pos, ok_bind,
    reject_erase]
  split <;> rfl

private theorem wideImmediate_erase (w : Width) (z : Int) :
    wideImmediate i.erase z w.bits = about i (MachineCode.wideImmediate w z) := by
  have hw : w.bits = 16 ↔ w = .word := by cases w <;> decide
  simp only [wideImmediate, MachineCode.wideImmediate, hw, signedBytes_eq, fitsSigned_eq (w := 32) (by decide), ok_bind,
    reject_erase]
  split
  · rfl
  · split <;> rfl

private theorem checkPlace_bind {o : LongMode.Operand} {x : Unit → Coding (List UInt8)}
    {g : Place → Except EncodeCause Code} (ho : o.isVector = false)
    (h : ∀ p : Place, o = p.operand → x () = coded i (g p)) :
    checkPlace i.erase o.erase >>= x = coded i (requirePlace o >>= g) := by
  cases o with
  | register v => exact h (.register v) rfl
  | vector r => cases ho
  | immediate z n =>
    show i.erase.reject .immediateInPlace >>= x = _
    rw [reject_erase]
    rfl
  | memory l => exact h (.memory l) rfl

private theorem checkSameWidth_bind {d s : LongMode.Operand} {x : Unit → Coding (List UInt8)}
    {y : Except EncodeCause Code} (h : d.bits = s.bits → x () = coded i y) :
    checkSameWidth i.erase d.erase s.erase >>= x = coded i (do requireSameWidth d s; y) := by
  rw [checkSameWidth, requireSameWidth, width_erase, width_erase]
  split
  · exact h ‹_›
  · rw [reject_erase]
    rfl

private theorem checkRegister_bind {widths : List Width} {o : LongMode.Operand} {x : Unit → Coding (List UInt8)}
    {g : View → Except EncodeCause Code} (h : ∀ v, o = .register v → v.width ∈ widths → x () = coded i (g v)) :
    checkRegister i.erase widths o.erase >>= x = coded i (requireRegister widths o >>= g) := by
  unfold checkRegister
  rw [reject_erase]
  cases o with
  | register v =>
    simp only [LongMode.Operand.erase, Operand.isRegister, Operand.width, View.bits, contains_bits, Bool.true_and,
      requireRegister]
    by_cases hv : widths.contains v.width
    · rw [if_pos hv, if_pos hv]
      exact h v rfl (List.contains_iff_mem.1 hv)
    · rw [if_neg hv, if_neg hv]
      rfl
  | vector r =>
    simp only [LongMode.Operand.erase, Operand.isRegister, Operand.width, contains_vector_bits, Bool.and_false]
    rfl
  | _ => rfl

private theorem checkPair_erase {m : Mnemonic} {d s : LongMode.Operand} (hd : d.isVector = false)
    (hs : s.isVector = false) :
    checkPair (LongMode.Instruction.mk m [d, s]).erase = about ⟨m, [d, s]⟩ ((requirePair d s).map fun _ => ()) := by
  have hsame : checkSameWidth (LongMode.Instruction.mk m [d, s]).erase d.erase s.erase =
      about ⟨m, [d, s]⟩ (requireSameWidth d s) := by
    rw [checkSameWidth, requireSameWidth, width_erase, width_erase, reject_erase]
    split <;> rfl
  cases d with
  | vector r => cases hd
  | immediate z n =>
    show (LongMode.Instruction.mk m [.immediate z n, s]).erase.reject .immediateInPlace >>= _ = _
    rw [reject_erase]
    rfl
  | register v =>
    refine Eq.trans (b := checkSameWidth _ (LongMode.Operand.register v).erase s.erase) rfl (hsame.trans ?_)
    simp only [requirePair, requirePlace, ok_bind]
    cases requireSameWidth (.register v) s with
    | error c => rfl
    | ok u => cases s <;> first | rfl | cases hs
  | memory l =>
    cases s with
    | vector r => cases hs
    | memory l' =>
      show (LongMode.Instruction.mk m [.memory l, .memory l']).erase.reject .memoryToMemory >>= _ = _
      rw [reject_erase]
      rfl
    | register v =>
      refine Eq.trans (b := checkSameWidth _ (LongMode.Operand.memory l).erase _) rfl (hsame.trans ?_)
      cases h : requireSameWidth (.memory l) (.register v) <;> simp [requirePair, requirePlace, h] <;> rfl
    | immediate z n =>
      refine Eq.trans (b := checkSameWidth _ (LongMode.Operand.memory l).erase _) rfl (hsame.trans ?_)
      cases h : requireSameWidth (.memory l) (.immediate z n) <;> simp [requirePair, requirePlace, h] <;> rfl

private theorem checkPair_bind {m : Mnemonic} {d s : LongMode.Operand} {x : Unit → Coding (List UInt8)}
    {g : Pair → Except EncodeCause Code} (hd : d.isVector = false) (hs : s.isVector = false)
    (h : ∀ pair : Pair, pair.Describes d s → x () = coded ⟨m, [d, s]⟩ (g pair)) :
    checkPair (LongMode.Instruction.mk m [d, s]).erase >>= x = coded ⟨m, [d, s]⟩ (requirePair d s >>= g) := by
  rw [checkPair_erase hd hs]
  cases hp : requirePair d s with
  | error c => rfl
  | ok pair => exact h pair (requirePair_eq_ok.1 hp)

private theorem about_bind_coded {α : Type} {y : Except EncodeCause α} {x : α → Coding (List UInt8)}
    {g : α → Except EncodeCause Code} (h : ∀ a, x a = coded i (g a)) : about i y >>= x = coded i (y >>= g) := by
  cases y with
  | error c => rfl
  | ok a => exact h a

/-! ### Opcodes -/

private theorem opcode_byWidth {w : Width} {a b : UInt8} {x y : Int} (ha : x = a.toNat) (hb : y = b.toNat) :
    [if w.bits = 8 then x else y] = (byWidth w a b).opcode.map fun b => (b.toNat : Int) := by
  subst ha hb
  cases w <;> rfl

private theorem toNat_group (k : Fin 8) {n : Nat} (hn : n < 8) :
    8 * (k.val : Int) + n = ((UInt8.ofNat (8 * k.val) + UInt8.ofNat n).toNat : Int) := by
  have hk := k.isLt
  rw [UInt8.toNat_add, UInt8.toNat_ofNat', UInt8.toNat_ofNat']
  omega

private theorem toNat_group_zero (k : Fin 8) : 8 * (k.val : Int) = ((UInt8.ofNat (8 * k.val)).toNat : Int) := by
  have hk := k.isLt
  rw [UInt8.toNat_ofNat']
  omega

/-- The form of the accumulator or the one with a digit. -/
private theorem assemble_accumulator (f g : Form) (k : Fin 8) (p : Place) {x y : List Int}
    (hx : x = f.opcode.map fun b => (b.toNat : Int)) (hy : y = g.opcode.map fun b => (b.toNat : Int)) :
    (do
      if ← p.operand.erase.isAccumulator then
        assemble i.erase { opcode := x, width := f.width.bits, immediate := f.immediate
                           qwordByDefault := f.qwordByDefault }
      else
        assemble i.erase { opcode := y, width := g.width.bits, rm := some p.operand.erase, digit := some (k.val : Int)
                           immediate := g.immediate, qwordByDefault := g.qwordByDefault }) =
      coded i (if p.isAccumulator then f.implied else g.withModRm (.digit k) (.ofPlace p)) := by
  rw [isAccumulator_erase, ok_bind]
  split
  · exact assemble_implied f hx
  · exact assemble_withModRm g (.digit k) p hy

/-! ### One mnemonic or group at a time -/

theorem encodeArithmetic_eq {m : Mnemonic} {k : Fin 8} {d s : LongMode.Operand}
    (hm : find arithmeticDigits m = (.ok (k.val : Int) : Coding Int)) (hd : d.isVector = false)
    (hs : s.isVector = false) :
    encodeArithmetic (LongMode.Instruction.mk m [d, s]).erase =
      coded ⟨m, [d, s]⟩ (MachineCode.encodeArithmetic k d s) := by
  refine checkPair_bind hd hs fun pair hp => ?_
  have hdigit : find arithmeticDigits (LongMode.Instruction.mk m [d, s]).erase.mnemonic =
      (.ok (k.val : Int) : Coding Int) := hm
  simp only [double_operands, hdigit, ok_bind]
  cases pair with
  | store p v =>
    obtain ⟨rfl, rfl, -⟩ := hp
    rw [width_place]
    exact assemble_withModRm (byWidth p.width _ _) (.register v) p
      (opcode_byWidth (toNat_group_zero k) (toNat_group k (n := 1) (by decide)))
  | load v l =>
    obtain ⟨rfl, rfl, -⟩ := hp
    rw [width_erase]
    exact assemble_withModRm (byWidth v.width _ _) (.register v) (.memory l)
      (opcode_byWidth (toNat_group k (n := 2) (by decide)) (toNat_group k (n := 3) (by decide)))
  | constant p z =>
    obtain ⟨rfl, rfl⟩ := hp
    have hbyte : p.width.bits = 8 ↔ p.width = .byte := by cases p.width <;> decide
    rw [width_place, erase_immediate]
    simp only [immediateValue_erase]
    refine about_bind_coded fun value => ?_
    simp only [hbyte, fitsSigned_eq (w := 8) (by decide), signedBytes_eq, ok_bind]
    by_cases hw : p.width = .byte
    · rw [if_pos hw, if_pos hw]
      exact assemble_accumulator ((form [_] p.width).withImmediate _) ((form [_] p.width).withImmediate _) k p
        (congrArg (fun x => [x]) (toNat_group k (n := 4) (by decide))) rfl
    · rw [if_neg hw, if_neg hw]
      split
      · exact assemble_withModRm ((form [0x83] p.width).withImmediate _) (.digit k) p rfl
      · rw [wideImmediate_erase]
        refine about_bind_coded fun bytes => ?_
        exact assemble_accumulator ((form [_] p.width).withImmediate _) ((form [_] p.width).withImmediate _) k p
          (congrArg (fun x => [x]) (toNat_group k (n := 5) (by decide))) rfl

theorem encodeTest_eq {m : Mnemonic} {d s : LongMode.Operand} (hd : d.isVector = false) (hs : s.isVector = false) :
    encodeTest (LongMode.Instruction.mk m [d, s]).erase = coded ⟨m, [d, s]⟩ (MachineCode.encodeTest d s) := by
  refine checkPair_bind hd hs fun pair hp => ?_
  simp only [double_operands, ok_bind]
  cases pair with
  | store p v =>
    obtain ⟨rfl, rfl, -⟩ := hp
    rw [width_place]
    exact assemble_withModRm (byWidth p.width _ _) (.register v) p (opcode_byWidth rfl rfl)
  | load v l =>
    obtain ⟨rfl, rfl, -⟩ := hp
    rw [width_erase]
    exact assemble_withModRm (byWidth v.width _ _) (.register v) (.memory l) (opcode_byWidth rfl rfl)
  | constant p z =>
    obtain ⟨rfl, rfl⟩ := hp
    have hbyte : p.width.bits = 8 ↔ p.width = .byte := by cases p.width <;> decide
    have hforms (bytes : List UInt8) := assemble_accumulator (i := ⟨m, [p.operand, .immediate z p.width.bits]⟩)
      ((byWidth p.width 0xA8 0xA9).withImmediate bytes) ((byWidth p.width 0xF6 0xF7).withImmediate bytes) 0 p
      (opcode_byWidth rfl rfl) (opcode_byWidth rfl rfl)
    rw [width_place, erase_immediate]
    simp only [immediateValue_erase, wideImmediate_erase, signedBytes_eq, ok_bind]
    refine about_bind_coded fun value => ?_
    by_cases hw : p.width = .byte
    · rw [if_pos (hbyte.2 hw), if_pos hw]
      exact hforms _
    · rw [if_neg (mt hbyte.1 hw), if_neg hw]
      exact about_bind_coded hforms

theorem encodeMove_eq {m : Mnemonic} {d s : LongMode.Operand} (hd : d.isVector = false) (hs : s.isVector = false) :
    encodeMove (LongMode.Instruction.mk m [d, s]).erase = coded ⟨m, [d, s]⟩ (MachineCode.encodeMove d s) := by
  refine checkPair_bind hd hs fun pair hp => ?_
  simp only [double_operands, ok_bind]
  cases pair with
  | store p v =>
    obtain ⟨rfl, rfl, -⟩ := hp
    rw [width_place]
    exact assemble_withModRm (byWidth p.width _ _) (.register v) p (opcode_byWidth rfl rfl)
  | load v l =>
    obtain ⟨rfl, rfl, -⟩ := hp
    rw [width_erase]
    exact assemble_withModRm (byWidth v.width _ _) (.register v) (.memory l) (opcode_byWidth rfl rfl)
  | constant p z =>
    obtain ⟨rfl, rfl⟩ := hp
    rw [width_place, erase_immediate]
    simp only [immediateValue_erase, wideImmediate_erase, signedBytes_eq, ok_bind]
    refine about_bind_coded fun value => ?_
    cases p with
    | register v =>
      have hlast : (if v.width = .byte then 0xB0 else 0xB8 : UInt8).toNat + 8 ≤ 256 := by split <;> decide
      have hform := assemble_opcodeRegister (i := ⟨m, [.register v, .immediate z v.width.bits]⟩)
        ((byWidth v.width 0xB0 0xB8).withImmediate (LongMode.signedBytes v.width.bytes value)) v rfl hlast
        (opcode_byWidth rfl rfl)
      have hbytes : v.width.bits / 8 = v.width.bytes := by unfold Width.bits; omega
      have hone : v.width.bits = 8 → v.width.bytes = 1 := by unfold Width.bits; omega
      refine (if_pos rfl).trans ?_
      by_cases hw : v.width.bits = 8
      · refine (if_pos hw).trans (Eq.trans ?_ hform)
        rw [hone hw]
        rfl
      · refine (if_neg hw).trans (Eq.trans ?_ hform)
        rw [Place.width, hbytes]
        rfl
    | memory l =>
      have hbyte : l.width.bits = 8 ↔ l.width = .byte := by cases l.width <;> decide
      have hform (bytes : List UInt8) := assemble_withModRm (i := ⟨m, [.memory l, .immediate z l.width.bits]⟩)
        ((byWidth l.width 0xC6 0xC7).withImmediate bytes) (.digit 0) (.memory l) (opcode_byWidth rfl rfl)
      refine (if_neg (by simp [Place.operand, LongMode.Operand.erase, Operand.isRegister])).trans ?_
      by_cases hw : l.width = .byte
      · exact (if_pos (hbyte.2 hw)).trans ((hform _).trans (congrArg (coded _) (if_pos hw).symm))
      · exact (if_neg (mt hbyte.1 hw)).trans
          ((about_bind_coded hform).trans (congrArg (coded _) (if_neg hw).symm))

theorem encodeExtension_eq {m : Mnemonic} {b : UInt8} {d s : LongMode.Operand} (hm : m ≠ .movsxd)
    (h8 : find extensionOpcodes (m, 8) = (.ok (b.toNat : Int) : Coding Int))
    (h16 : find extensionOpcodes (m, 16) = (.ok ((b + 1).toNat : Int) : Coding Int)) (hs : s.isVector = false) :
    encodeExtension (LongMode.Instruction.mk m [d, s]).erase =
      coded ⟨m, [d, s]⟩ (MachineCode.encodeExtension b d s) := by
  simp only [encodeExtension, double_operands, ok_bind]
  refine checkPlace_bind hs fun p hp => ?_
  subst hp
  refine (if_neg hm).trans (checkRegister_bind fun v hv _ => ?_)
  subst hv
  have hwidths : (p.width.bits = 8 ∨ p.width.bits = 16) ↔ (p.width = .byte ∨ p.width = .word) := by
    cases p.width <;> decide
  simp only [width_place, width_register, hwidths]
  by_cases h : (p.width = .byte ∨ p.width = .word) ∧ p.width.bits < v.bits
  · rw [if_pos h, if_pos h]
    have hopcode : find extensionOpcodes (m, p.width.bits) =
        (.ok ((if p.width = .byte then b else b + 1).toNat : Int) : Coding Int) := by
      obtain hw | hw := h.1 <;> rw [hw]
      · exact h8
      · exact h16
    show find extensionOpcodes (m, p.width.bits) >>= _ = _
    rw [hopcode, ok_bind]
    exact assemble_withModRm (form [0x0F, _] v.width) (.register v) p rfl
  · rw [if_neg h, if_neg h, reject_erase]
    rfl

theorem encodeExtension_dword_eq {d s : LongMode.Operand} (hs : s.isVector = false) :
    encodeExtension (LongMode.Instruction.mk .movsxd [d, s]).erase =
      coded ⟨.movsxd, [d, s]⟩ (encodeSignExtension d s) := by
  simp only [encodeExtension, double_operands, ok_bind]
  refine checkPlace_bind hs fun p hp => ?_
  subst hp
  refine (if_pos rfl).trans (checkRegister_bind fun v hv _ => ?_)
  subst hv
  have hwidth : p.width.bits ≠ 32 ↔ ¬ p.width = .dword := by cases p.width <;> decide
  simp only [width_place, hwidth]
  by_cases h : p.width = .dword
  · rw [if_neg (not_not_intro h), if_pos h]
    exact assemble_withModRm (form [0x63] .qword) (.register v) p rfl
  · rw [if_pos h, if_neg h, reject_erase]
    rfl

theorem encodeLoadAddress_eq {m : Mnemonic} {d s : LongMode.Operand} :
    encodeLoadAddress (LongMode.Instruction.mk m [d, s]).erase =
      coded ⟨m, [d, s]⟩ (MachineCode.encodeLoadAddress d s) := by
  simp only [encodeLoadAddress, double_operands, ok_bind]
  refine checkRegister_bind fun v hv _ => ?_
  subst hv
  cases s with
  | memory l =>
    rw [width_erase]
    exact (if_pos rfl).trans (assemble_withModRm (form [0x8D] v.width) (.register v) (.memory l) rfl)
  | _ => exact (if_neg (by simp [LongMode.Operand.erase, Operand.isMemory])).trans (reject_erase _)

private theorem exchangePartner_eq (u v : View) :
    exchangePartner (LongMode.Operand.register u).erase (LongMode.Operand.register v).erase =
      .ok ((exchangePartner? u v).map fun w => (LongMode.Operand.register w).erase) := by
  have hacc (w : View) : ((LongMode.Operand.register w).erase.isAccumulator : Coding Bool) =
      .ok (Place.register w).isAccumulator := isAccumulator_erase (.register w)
  have hbyte : (u.bits != 8) = !decide (u.width = .byte) := by unfold View.bits; cases u.width <;> rfl
  have hdword : (u.bits == 32) = (u.width == .dword) := by unfold View.bits; cases u.width <;> rfl
  have hregister (w : View) : (LongMode.Operand.register w).erase.isRegister = true := rfl
  have hbeside : besideAccumulator (LongMode.Operand.register u).erase (LongMode.Operand.register v).erase =
      .ok ((if (Place.register u).isAccumulator then some v
        else if (Place.register v).isAccumulator then some u
        else none).map fun w => (LongMode.Operand.register w).erase) := by
    simp only [besideAccumulator, hacc, ok_bind]
    split
    · rfl
    · split <;> rfl
  simp only [exchangePartner, exchangePartner?, width_register, hbeside, hbyte, hdword, hregister, ok_bind,
    Bool.true_and]
  by_cases hw : u.width = .byte
  · simp only [hw, decide_true, Bool.not_true, Bool.false_eq_true, if_false, if_true]
    rfl
  · simp only [hw, decide_false, Bool.not_false, if_true, if_false]
    cases (if (Place.register u).isAccumulator then some v
        else if (Place.register v).isAccumulator then some u else none) with
    | none => rfl
    | some w =>
      simp only [Option.map_some, hacc, ok_bind, Option.filter_some]
      cases u.width == .dword && (Place.register w).isAccumulator <;> rfl

theorem encodeExchange_eq {m : Mnemonic} {a b : LongMode.Operand} (ha : a.isVector = false) (hb : b.isVector = false) :
    encodeExchange (LongMode.Instruction.mk m [a, b]).erase = coded ⟨m, [a, b]⟩ (MachineCode.encodeExchange a b) := by
  simp only [encodeExchange, double_operands, ok_bind]
  refine checkPlace_bind hb fun q hq => checkPair_bind ha hb fun pair hp => ?_
  cases pair with
  | store p v =>
    obtain ⟨rfl, rfl, -⟩ := hp
    cases p with
    | register u =>
      show exchangePartner (LongMode.Operand.register u).erase (LongMode.Operand.register v).erase >>= _ = _
      rw [exchangePartner_eq, ok_bind]
      cases hpartner : exchangePartner? u v with
      | some w =>
        simp only [hpartner, Option.map_some]
        exact assemble_opcodeRegister (form [0x90] u.width) w rfl (by decide) rfl
      | none =>
        simp only [hpartner, Option.map_none]
        exact (if_pos rfl).trans
          (assemble_withModRm (byWidth u.width _ _) (.register v) (.register u) (opcode_byWidth rfl rfl))
    | memory l =>
      exact (assemble_withModRm (byWidth l.width _ _) (.register v) (.memory l) (opcode_byWidth rfl rfl))
  | load v l =>
    obtain ⟨rfl, rfl, -⟩ := hp
    exact (assemble_withModRm (byWidth v.width _ _) (.register v) (.memory l) (opcode_byWidth rfl rfl))
  | constant p z =>
    obtain ⟨rfl, rfl⟩ := hp
    cases q <;> cases hq

theorem encodePush_eq {m : Mnemonic} {s : LongMode.Operand} (hs : s.isVector = false) :
    encodePush (LongMode.Instruction.mk m [s]).erase = coded ⟨m, [s]⟩ (MachineCode.encodePush s) := by
  simp only [encodePush, single_operands, ok_bind]
  rw [width_erase]
  unfold MachineCode.encodePush
  by_cases hw : s.bits = 64
  · rw [if_neg (not_not_intro hw), if_neg (not_not_intro hw)]
    cases s with
    | register v => exact assemble_opcodeRegister (Form.mk [0x50] .qword true []) v rfl (by decide) rfl
    | vector r => cases hs
    | memory l => exact assemble_withModRm (Form.mk [0xFF] .qword true []) (.digit 6) (.memory l) rfl
    | immediate z n =>
      rw [erase_immediate]
      show immediateValue _ z Width.qword.bits >>= _ = _
      rw [immediateValue_erase]
      refine about_bind_coded fun value => ?_
      simp only [fitsSigned_eq (w := 8) (by decide), signedBytes_eq, ok_bind]
      split
      · exact assemble_implied (Form.mk [0x6A] .qword true _) rfl
      · show wideImmediate _ value Width.qword.bits >>= _ = _
        rw [wideImmediate_erase]
        exact about_bind_coded fun bytes => assemble_implied (Form.mk [0x68] .qword true bytes) rfl
  · rw [if_pos hw, if_pos hw, reject_erase]
    rfl

theorem encodePop_eq {m : Mnemonic} {d : LongMode.Operand} (hd : d.isVector = false) :
    encodePop (LongMode.Instruction.mk m [d]).erase = coded ⟨m, [d]⟩ (MachineCode.encodePop d) := by
  simp only [encodePop, single_operands, ok_bind]
  refine checkPlace_bind hd fun p hp => ?_
  subst hp
  have hwidth : p.width.bits ≠ 64 ↔ p.width ≠ .qword := by cases p.width <;> decide
  rw [width_place]
  by_cases hw : p.width = .qword
  · rw [if_neg (mt hwidth.1 (not_not_intro hw)), if_neg (not_not_intro hw)]
    cases p with
    | register v => exact assemble_opcodeRegister (Form.mk [0x58] .qword true []) v rfl (by decide) rfl
    | memory l => exact assemble_withModRm (Form.mk [0x8F] .qword true []) (.digit 0) (.memory l) rfl
  · rw [if_pos (hwidth.2 hw), if_pos hw, reject_erase]
    rfl

/-- A register and a source of its width, once they are checked. -/
private theorem registerSource_bind {m : Mnemonic} {d s : LongMode.Operand} {operands : List LongMode.Operand}
    {x : Coding (List UInt8)} {g : View → Place → Except EncodeCause Code} (hs : s.isVector = false)
    (h : ∀ (v : View) (p : Place), d = .register v → s = p.operand → x = coded ⟨m, operands⟩ (g v p)) :
    (do
      checkRegister (LongMode.Instruction.mk m operands).erase Width.wordOrMore d.erase
      checkPlace (LongMode.Instruction.mk m operands).erase s.erase
      checkSameWidth (LongMode.Instruction.mk m operands).erase d.erase s.erase
      x) =
      coded ⟨m, operands⟩ (do
        let v ← requireRegister Width.wordOrMore d
        let p ← requirePlace s
        requireSameWidth d s
        g v p) :=
  checkRegister_bind fun v hv _ => checkPlace_bind hs fun p hp => checkSameWidth_bind fun _ => h v p hv hp

theorem encodeRegisterSource_eq {m : Mnemonic} {opcode : List UInt8} {d s : LongMode.Operand}
    (hm : find registerSourceOpcodes m = (.ok (opcode.map fun b => (b.toNat : Int)) : Coding _))
    (hs : s.isVector = false) :
    encodeRegisterSource (LongMode.Instruction.mk m [d, s]).erase =
      coded ⟨m, [d, s]⟩ (MachineCode.encodeRegisterSource opcode d s) := by
  have hopcode : find registerSourceOpcodes (LongMode.Instruction.mk m [d, s]).erase.mnemonic =
      (.ok (opcode.map fun b => (b.toNat : Int)) : Coding _) := hm
  simp only [encodeRegisterSource, double_operands, hopcode, ok_bind]
  refine registerSource_bind hs fun v p hv hp => ?_
  subst hv hp
  exact assemble_withModRm (form opcode v.width) (.register v) p rfl

/-- A place with a digit. -/
private theorem encodeDigit_eq {m : Mnemonic} {a b : UInt8} {x y : Int} {k : Fin 8} {d : LongMode.Operand}
    (hx : x = a.toNat) (hy : y = b.toNat) (hd : d.isVector = false) :
    (do
      checkPlace (LongMode.Instruction.mk m [d]).erase d.erase
      assemble (LongMode.Instruction.mk m [d]).erase { opcode := [if d.erase.width = 8 then x else y]
                                                       width := d.erase.width, rm := some d.erase
                                                       digit := some (k.val : Int) }) =
      coded ⟨m, [d]⟩ (MachineCode.encodeUnary a b k d) := by
  refine checkPlace_bind hd fun p hp => ?_
  subst hp
  rw [width_place]
  exact assemble_withModRm (byWidth p.width a b) (.digit k) p (opcode_byWidth hx hy)

theorem encodeIncrement_eq {m : Mnemonic} {k : Fin 8} {d : LongMode.Operand}
    (hm : (if m = .inc then 0 else 1 : Int) = k.val) (hd : d.isVector = false) :
    encodeIncrement (LongMode.Instruction.mk m [d]).erase = coded ⟨m, [d]⟩ (MachineCode.encodeUnary 0xFE 0xFF k d) := by
  have hdigit : (if (LongMode.Instruction.mk m [d]).erase.mnemonic = .inc then 0 else 1 : Int) = k.val := hm
  simp only [encodeIncrement, single_operands, hdigit, ok_bind]
  exact encodeDigit_eq rfl rfl hd

theorem encodeUnary_eq {m : Mnemonic} {k : Fin 8} {d : LongMode.Operand}
    (hm : find unaryDigits m = (.ok (k.val : Int) : Coding Int)) (hd : d.isVector = false) :
    encodeUnary (LongMode.Instruction.mk m [d]).erase = coded ⟨m, [d]⟩ (MachineCode.encodeUnary 0xF6 0xF7 k d) := by
  have hdigit : find unaryDigits (LongMode.Instruction.mk m [d]).erase.mnemonic = (.ok (k.val : Int) : Coding Int) := hm
  simp only [encodeUnary, single_operands, hdigit, ok_bind]
  exact encodeDigit_eq rfl rfl hd

theorem encodeMultiply_one_eq {d : LongMode.Operand} (hd : d.isVector = false) :
    encodeMultiply (LongMode.Instruction.mk .imul [d]).erase =
      coded ⟨.imul, [d]⟩ (MachineCode.encodeUnary 0xF6 0xF7 5 d) :=
  encodeUnary_eq rfl hd

theorem encodeMultiply_two_eq {d s : LongMode.Operand} (hs : s.isVector = false) :
    encodeMultiply (LongMode.Instruction.mk .imul [d, s]).erase =
      coded ⟨.imul, [d, s]⟩ (MachineCode.encodeRegisterSource [0x0F, 0xAF] d s) := by
  refine registerSource_bind hs fun v p hv hp => ?_
  subst hv hp
  exact assemble_withModRm (form [0x0F, 0xAF] v.width) (.register v) p rfl

theorem encodeMultiply_three_eq {d s f : LongMode.Operand} (hs : s.isVector = false) :
    encodeMultiply (LongMode.Instruction.mk .imul [d, s, f]).erase =
      coded ⟨.imul, [d, s, f]⟩ (MachineCode.encodeMultiply d s f) := by
  refine registerSource_bind hs fun v p hv hp => ?_
  subst hv hp
  cases f with
  | immediate z n =>
    show (if n ≠ v.bits then _ else _) = coded _ (if n ≠ v.bits then _ else _)
    by_cases hn : n = v.bits
    · rw [if_neg (not_not_intro hn), if_neg (not_not_intro hn)]
      show immediateValue _ z v.width.bits >>= _ = _
      rw [immediateValue_erase]
      refine about_bind_coded fun value => ?_
      simp only [fitsSigned_eq (w := 8) (by decide), signedBytes_eq, ok_bind]
      split
      · exact assemble_withModRm ((form [0x6B] v.width).withImmediate _) (.register v) p rfl
      · show wideImmediate _ value v.width.bits >>= _ = _
        rw [wideImmediate_erase]
        exact about_bind_coded fun bytes =>
          assemble_withModRm ((form [0x69] v.width).withImmediate bytes) (.register v) p rfl
    · rw [if_pos hn, if_pos hn, reject_erase]
      rfl
  | _ => exact reject_erase _

theorem encodeShift_eq {m : Mnemonic} {k : Fin 8} {d c : LongMode.Operand}
    (hm : find shiftDigits m = (.ok (k.val : Int) : Coding Int)) (hd : d.isVector = false) (hc : c.isVector = false) :
    encodeShift (LongMode.Instruction.mk m [d, c]).erase = coded ⟨m, [d, c]⟩ (MachineCode.encodeShift k d c) := by
  have hdigit : find shiftDigits (LongMode.Instruction.mk m [d, c]).erase.mnemonic =
      (.ok (k.val : Int) : Coding Int) := hm
  simp only [encodeShift, double_operands, hdigit, ok_bind]
  refine checkPlace_bind hd fun p hp => ?_
  subst hp
  simp only [width_place]
  cases c with
  | register v =>
    have hname : v.name ≠ "cl" ↔ v ≠ .low .rcx .byte := not_congr (name_view_inj (v := .low .rcx .byte))
    show (if v.name ≠ "cl" then _ else _) = coded _ (if v ≠ .low .rcx .byte then _ else _)
    by_cases hv : v = .low .rcx .byte
    · rw [if_neg (mt hname.1 (not_not_intro hv)), if_neg (not_not_intro hv)]
      exact assemble_withModRm (byWidth p.width _ _) (.digit k) p (opcode_byWidth rfl rfl)
    · rw [if_pos (hname.2 hv), if_pos hv, reject_erase]
      rfl
  | vector r => cases hc
  | immediate z n =>
    show immediateValue _ z Width.byte.bits >>= _ = coded _ (MachineCode.immediateValue .byte z >>= _)
    rw [immediateValue_erase]
    cases hvalue : MachineCode.immediateValue .byte z with
    | error c => rfl
    | ok value =>
      -- a reading of eight bits is one exactly when the byte is
      have hreading : LongMode.signed 8 z = value := (immediateValue_eq_ok.1 hvalue).2
      have hone : value % 256 = 1 ↔ value = 1 := by
        have hl := le_signed (w := 8) (by decide) z
        have hu := signed_lt (w := 8) (by decide) z
        omega
      have hbyte : (bytes [value % 256] : Coding (List UInt8)) = .ok (LongMode.signedBytes 1 value) :=
        bytes_cons (byte_of_eq (n := truncate 8 value) (by unfold truncate; omega) (truncate_lt 8 value)) rfl
      show (if value % 256 = 1 then _ else bytes [value % 256] >>= _) = coded _ (if value = 1 then _ else _)
      by_cases h1 : value = 1
      · rw [if_pos (hone.2 h1), if_pos h1]
        exact assemble_withModRm (byWidth p.width _ _) (.digit k) p (opcode_byWidth rfl rfl)
      · rw [if_neg (mt hone.1 h1), if_neg h1, hbyte, ok_bind]
        exact assemble_withModRm ((byWidth p.width _ _).withImmediate _) (.digit k) p (opcode_byWidth rfl rfl)
  | memory l => exact reject_erase _

private theorem packedRex_eq (x y : VectorRegister) :
    packedRex x.number.val y.number.val =
      .ok ((if 8 ≤ x.number.val || 8 ≤ y.number.val then
        some (Rex.mk false (8 ≤ x.number.val) false (8 ≤ y.number.val)) else none).map Rex.byte).toList := by
  have hle (n : Fin 16) : (8 : Int) ≤ (n.val : Int) ↔ 8 ≤ n.val := by omega
  have hbyte : (bytes [0x40 + 4 * ((decide (8 ≤ x.number.val)).toNat : Int) + (decide (8 ≤ y.number.val)).toNat] :
      Coding (List UInt8)) = .ok [(Rex.mk false (8 ≤ x.number.val) false (8 ≤ y.number.val)).byte] := by
    have hx := (decide (8 ≤ x.number.val)).toNat_le
    have hy := (decide (8 ≤ y.number.val)).toNat_le
    exact bytes_cons (byte_of_eq (by simp) (by simp only [Bool.toNat_false]; omega)) rfl
  simp only [packedRex, hle, hbyte, Bool.or_eq_true, decide_eq_true_eq]
  split <;> rfl

theorem encodePackedAdd_eq {m : Mnemonic} {d s : LongMode.Operand} :
    encodePackedAdd (LongMode.Instruction.mk m [d, s]).erase =
      coded ⟨m, [d, s]⟩ (MachineCode.encodePackedAdd d s) := by
  simp only [encodePackedAdd, double_operands, isVector_erase, ok_bind]
  cases d with
  | vector x =>
    cases s with
    | vector y =>
      have hnumber (r : VectorRegister) : (vectorNumber (LongMode.Operand.vector r).erase : Coding Int) =
          .ok (r.number.val : Int) := by
        simp only [LongMode.Operand.erase, vectorNumber, vectorNamed_name]
        rfl
      have hmodRm : (byte (0xC0 + 8 * ((x.number.val : Int) % 8) + (y.number.val : Int) % 8) : Coding UInt8) =
          .ok (UInt8.ofNat (64 * 3 + 8 * (x.number.val % 8) + y.number.val % 8)) :=
        byte_of_eq (by omega) (by omega)
      have hopcode : (bytes [0x0F, 0xFE, 0xC0 + 8 * ((x.number.val : Int) % 8) + (y.number.val : Int) % 8] :
          Coding (List UInt8)) = .ok [0x0F, 0xFE, UInt8.ofNat (64 * 3 + 8 * (x.number.val % 8) + y.number.val % 8)] :=
        bytes_cons rfl (bytes_cons rfl (bytes_cons hmodRm rfl))
      have hsize : (bytes [0x66] : Coding (List UInt8)) = .ok [0x66] := rfl
      refine (if_neg (by simp [LongMode.Operand.isVector])).trans ?_
      simp only [hnumber, packedRex_eq, hopcode, hsize, ok_bind]
      refine congrArg Except.ok ?_
      simp only [Code.bytes, ModRm.bytes, if_true, Option.map_none, Option.toList_none, List.append_nil,
        List.append_assoc]
      rfl
    | _ => exact (if_pos rfl).trans (reject_erase _)
  | _ => exact (if_pos rfl).trans (reject_erase _)

theorem encodeFixed_eq {m : Mnemonic} {f : Form} {c : Code} (hf : f.implied = .ok c)
    (hm : find fixedCodes m = (.ok (c.bytes.map fun b => (b.toNat : Int)) : Coding _)) :
    encodeFixed (LongMode.Instruction.mk m []).erase = coded ⟨m, []⟩ f.implied := by
  have hcode : find fixedCodes (LongMode.Instruction.mk m []).erase.mnemonic =
      (.ok (c.bytes.map fun b => (b.toNat : Int)) : Coding _) := hm
  rw [hf, encodeFixed, hcode]
  exact bytes_toNat c.bytes

/-! ### All mnemonics -/

private theorem encoder_one {m : Mnemonic} {o : LongMode.Operand} (hm : 1 ∈ m.operandCounts) (ho : o.isVector = false) :
    encoder m (LongMode.Instruction.mk m [o]).erase = coded ⟨m, [o]⟩ (encodeOperands m [o]) := by
  cases m with
  | push => exact encodePush_eq ho
  | pop => exact encodePop_eq ho
  | inc => exact encodeIncrement_eq (k := 0) rfl ho
  | dec => exact encodeIncrement_eq (k := 1) rfl ho
  | not => exact encodeUnary_eq (k := 2) rfl ho
  | neg => exact encodeUnary_eq (k := 3) rfl ho
  | mul => exact encodeUnary_eq (k := 4) rfl ho
  | imul => exact encodeMultiply_one_eq ho
  | div => exact encodeUnary_eq (k := 6) rfl ho
  | idiv => exact encodeUnary_eq (k := 7) rfl ho
  | _ => simp [Mnemonic.operandCounts] at hm

private theorem encoder_two {m : Mnemonic} {d s : LongMode.Operand} (hm : 2 ∈ m.operandCounts)
    (hv : m.isPacked = false → d.isVector = false ∧ s.isVector = false) :
    encoder m (LongMode.Instruction.mk m [d, s]).erase = coded ⟨m, [d, s]⟩ (encodeOperands m [d, s]) := by
  cases m with
  | mov => exact encodeMove_eq (hv rfl).1 (hv rfl).2
  | movzx => exact encodeExtension_eq (b := 0xB6) (by decide) rfl rfl (hv rfl).2
  | movsx => exact encodeExtension_eq (b := 0xBE) (by decide) rfl rfl (hv rfl).2
  | movsxd => exact encodeExtension_dword_eq (hv rfl).2
  | lea => exact encodeLoadAddress_eq
  | xchg => exact encodeExchange_eq (hv rfl).1 (hv rfl).2
  | cmove | cmovne | bsf | bsr => exact encodeRegisterSource_eq rfl (hv rfl).2
  | imul => exact encodeMultiply_two_eq (hv rfl).2
  | add => exact encodeArithmetic_eq (k := 0) rfl (hv rfl).1 (hv rfl).2
  | or => exact encodeArithmetic_eq (k := 1) rfl (hv rfl).1 (hv rfl).2
  | adc => exact encodeArithmetic_eq (k := 2) rfl (hv rfl).1 (hv rfl).2
  | sbb => exact encodeArithmetic_eq (k := 3) rfl (hv rfl).1 (hv rfl).2
  | and => exact encodeArithmetic_eq (k := 4) rfl (hv rfl).1 (hv rfl).2
  | sub => exact encodeArithmetic_eq (k := 5) rfl (hv rfl).1 (hv rfl).2
  | xor => exact encodeArithmetic_eq (k := 6) rfl (hv rfl).1 (hv rfl).2
  | cmp => exact encodeArithmetic_eq (k := 7) rfl (hv rfl).1 (hv rfl).2
  | test => exact encodeTest_eq (hv rfl).1 (hv rfl).2
  | rol => exact encodeShift_eq (k := 0) rfl (hv rfl).1 (hv rfl).2
  | ror => exact encodeShift_eq (k := 1) rfl (hv rfl).1 (hv rfl).2
  | shl => exact encodeShift_eq (k := 4) rfl (hv rfl).1 (hv rfl).2
  | shr => exact encodeShift_eq (k := 5) rfl (hv rfl).1 (hv rfl).2
  | sar => exact encodeShift_eq (k := 7) rfl (hv rfl).1 (hv rfl).2
  | paddd => exact encodePackedAdd_eq
  | _ => simp [Mnemonic.operandCounts] at hm

private theorem encoder_eq {m : Mnemonic} {operands : List LongMode.Operand} (hm : operands.length ∈ m.operandCounts)
    (hv : m.isPacked = false → ∀ o ∈ operands, o.isVector = false) :
    encoder m (LongMode.Instruction.mk m operands).erase = coded ⟨m, operands⟩ (encodeOperands m operands) := by
  match operands, hm, hv with
  | [], hm, _ =>
    cases m with
    | cqo => exact encodeFixed_eq (f := form [0x99] .qword) rfl rfl
    | cdq => exact encodeFixed_eq (f := form [0x99] .dword) rfl rfl
    | nop => exact encodeFixed_eq (f := form [0x90] .dword) rfl rfl
    | _ => simp [Mnemonic.operandCounts] at hm
  | [o], hm, hv =>
    refine encoder_one hm (hv ?_ o List.mem_cons_self)
    cases m <;> first | rfl | simp [Mnemonic.operandCounts] at hm
  | [d, s], hm, hv => exact encoder_two hm fun hp => ⟨hv hp d (by simp), hv hp s (by simp)⟩
  | [d, s, f], hm, hv =>
    cases m with
    | imul => exact encodeMultiply_three_eq (hv rfl s (by simp))
    | _ => simp [Mnemonic.operandCounts] at hm
  | d :: s :: f :: g :: rest, hm, _ => cases m <;> simp [Mnemonic.operandCounts] at hm

theorem encode_erase {i : LongMode.Instruction} (hi : i.operands.length ∈ i.mnemonic.operandCounts) :
    i.erase.encode = settled (i.encode.mapError EncodeError.notice) := by
  obtain ⟨m, operands⟩ := i
  have hany : (LongMode.Instruction.mk m operands).erase.operands.any Operand.isVector =
      operands.any LongMode.Operand.isVector := by
    simp only [LongMode.Instruction.erase, List.any_map]
    exact congrArg (List.any operands) (funext isVector_erase)
  have hcode : settled ((LongMode.Instruction.mk m operands).encode.mapError EncodeError.notice) =
      coded ⟨m, operands⟩ (if operands.any LongMode.Operand.isVector && !m.isPacked then .error .misplacedVector
        else encodeOperands m operands) := by
    unfold LongMode.Instruction.encode LongMode.Instruction.code LongMode.Instruction.usesVector
    split
    · rfl
    · cases encodeOperands m operands <;> rfl
  rw [hcode]
  unfold Instruction.encode
  rw [hany, Bool.and_comm]
  by_cases h : (operands.any LongMode.Operand.isVector && !m.isPacked) = true
  · exact (if_pos h).trans ((reject_erase _).trans (by rw [if_pos h]; rfl))
  · refine (if_neg h).trans (Eq.trans ?_ (congrArg (coded _) (if_neg h).symm))
    refine encoder_eq hi fun hp o ho => ?_
    have hnone : operands.any LongMode.Operand.isVector = false :=
      Bool.eq_false_iff.2 fun ha => h (by rw [ha, show m.isPacked = false from hp]; rfl)
    exact Bool.eq_false_iff.2 (List.any_eq_false.1 hnone o ho)

end LongMode.Untyped

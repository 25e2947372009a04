import LongMode.Proofs.MachineCode.Decode.Forms
import LongMode.Proofs.MachineCode.Decode.Pairs

/-!
# Machine code spells the canonical instruction

* `spells_code`: the machine code of an instruction spells its canonical form.
* `code_canonical`: the canonical form has the same machine code.

Both go through the forms one mnemonic at a time, by the number of operands.
-/

namespace LongMode

namespace Instruction

theorem code_eq_ok {i : Instruction} {c : Code} :
    i.code = .ok c ↔ (i.usesVector && !i.mnemonic.isPacked) = false ∧
      MachineCode.encodeOperands i.mnemonic i.operands = .ok c := by
  unfold code
  cases hv : i.usesVector && !i.mnemonic.isPacked <;> simp [mapError_eq_ok]

/-! ### Decoding -/

theorem spells_code {i : Instruction} {c : Code} (hi : i.WellFormed) (h : i.code = .ok c) : c.Spells i.canonical := by
  obtain ⟨-, h⟩ := code_eq_ok.1 h
  obtain ⟨m, operands⟩ := i
  have hc := hi.count
  have hwf : MachineCode.WellFormedAddresses operands := hi.address
  dsimp only at h hc
  match operands, hi, hc, hwf with
  | [], _, hc, _ =>
    cases m with
    | cqo | cdq | nop => exact MachineCode.spells_implied h (by simp)
    | _ => simp [Mnemonic.operandCounts] at hc
  | [o], _, hc, hwf =>
    cases m with
    | push => exact MachineCode.spells_encodePush hwf h
    | pop => exact MachineCode.spells_encodePop hwf h
    | inc | dec | neg | not | mul | imul | div | idiv =>
      exact MachineCode.spells_encodeUnary hwf h ⟨by decide, by decide⟩ ⟨rfl, rfl⟩ (fun _ _ => rfl) fun _ _ => rfl
    | _ => simp [Mnemonic.operandCounts] at hc
  | [d, s], hi, hc, hwf =>
    cases m with
    | mov => exact MachineCode.spells_encodeMove hwf h
    | movzx | movsx => exact MachineCode.spells_encodeExtension hwf h (fun _ _ _ => rfl) fun _ _ _ => rfl
    | movsxd => exact MachineCode.spells_encodeSignExtension hwf h
    | lea => exact MachineCode.spells_encodeLoadAddress hwf h
    | xchg => exact MachineCode.spells_encodeExchange hwf h
    | cmove | cmovne | bsf | bsr | imul =>
      exact MachineCode.spells_encodeRegisterSource hwf h (by decide) rfl fun _ _ _ => rfl
    | add | or | adc | sbb | and | sub | xor | cmp => exact MachineCode.spells_encodeArithmetic hwf h
    | test => exact MachineCode.spells_encodeTest hwf h
    | shl | shr | sar | rol | ror => exact MachineCode.spells_encodeShift rfl (hi.count_bits rfl) hwf h
    | paddd => exact MachineCode.spells_encodePackedAdd h
    | _ => simp [Mnemonic.operandCounts] at hc
  | [d, s, f], _, hc, hwf =>
    cases m with
    | imul => exact MachineCode.spells_encodeMultiply hwf h
    | _ => simp [Mnemonic.operandCounts] at hc
  | d :: s :: f :: g :: rest, _, hc, _ => cases m <;> simp [Mnemonic.operandCounts] at hc

end Instruction

/-! ### The canonical form has the same machine code -/

namespace MachineCode

theorem fits_signed (w : Width) (z : Int) : fits w.bits (signed w.bits z) = true := by
  have hl := @le_signed w.bits (by cases w <;> decide) z
  have hu := @signed_lt w.bits (by cases w <;> decide) z
  have hp : (2 : Int) ^ (w.bits - 1) ≤ 2 ^ w.bits := by cases w <;> decide
  simp only [fits, Bool.and_eq_true, decide_eq_true_eq]
  omega

theorem immediateValue_reduced {w : Width} {z : Int} {k : Int → Except EncodeCause Code} {c : Code}
    (h : (immediateValue w z >>= k) = .ok c) : (immediateValue w (signed w.bits z) >>= k) = .ok c := by
  obtain ⟨value, hv, hk⟩ := bind_eq_ok.1 h
  obtain ⟨-, rfl⟩ := immediateValue_eq_ok.1 hv
  exact bind_eq_ok.2 ⟨_, immediateValue_eq_ok.2 ⟨fits_signed w z, signed_signed w.bits z⟩, hk⟩

theorem requirePair_reduced {d s : Operand} {k : Pair → Except EncodeCause Code} {c : Code}
    (hk : ∀ p z c, k (.constant p z) = .ok c → k (.constant p (signed p.width.bits z)) = .ok c)
    (h : (requirePair d s >>= k) = .ok c) : (requirePair d.reduced s.reduced >>= k) = .ok c := by
  obtain ⟨pair, hpair, hc⟩ := bind_eq_ok.1 h
  rw [requirePair_eq_ok] at hpair
  cases pair with
  | store p v =>
    obtain ⟨rfl, rfl, hw⟩ := hpair
    rw [Place.reduced_operand]
    exact bind_eq_ok.2 ⟨.store p v, requirePair_eq_ok.2 ⟨rfl, rfl, hw⟩, hc⟩
  | load v l =>
    obtain ⟨rfl, rfl, hw⟩ := hpair
    exact bind_eq_ok.2 ⟨.load v l, requirePair_eq_ok.2 ⟨rfl, rfl, hw⟩, hc⟩
  | constant p z =>
    obtain ⟨rfl, rfl⟩ := hpair
    rw [Place.reduced_operand]
    exact bind_eq_ok.2 ⟨.constant p _, requirePair_eq_ok.2 ⟨rfl, rfl⟩, hk p z c hc⟩

theorem encodeArithmetic_reduced {digit : Fin 8} {d s : Operand} {c : Code} (h : encodeArithmetic digit d s = .ok c) :
    encodeArithmetic digit d.reduced s.reduced = .ok c :=
  requirePair_reduced (fun _ _ _ => immediateValue_reduced) h

theorem encodeMove_reduced {d s : Operand} {c : Code} (h : encodeMove d s = .ok c) :
    encodeMove d.reduced s.reduced = .ok c :=
  requirePair_reduced (fun _ _ _ => immediateValue_reduced) h

theorem encodePush_reduced {s : Operand} {c : Code} (h : encodePush s = .ok c) : encodePush s.reduced = .ok c := by
  cases s with
  | immediate z n =>
    unfold encodePush at h ⊢
    split at h
    · cases h
    · rename_i hn
      obtain rfl : n = 64 := Classical.not_not.1 hn
      exact immediateValue_reduced h
  | _ => exact h

theorem encodeShift_reduced {digit : Fin 8} {d s : Operand} {c : Code} (hs : ∀ z n, s = .immediate z n → n = 8)
    (h : encodeShift digit d s = .ok c) : encodeShift digit d.reduced s.reduced = .ok c := by
  simp only [encodeShift, bind_eq_ok, requirePlace_eq_ok] at h
  obtain ⟨p, rfl, h⟩ := h
  rw [Place.reduced_operand, encodeShift]
  refine bind_eq_ok.2 ⟨p, requirePlace_eq_ok.2 rfl, ?_⟩
  cases s with
  | immediate z n =>
    obtain rfl := hs z n rfl
    exact immediateValue_reduced h
  | _ => exact h

theorem encodeMultiply_reduced {d s f : Operand} {c : Code} (h : encodeMultiply d s f = .ok c) :
    encodeMultiply d.reduced s.reduced f.reduced = .ok c := by
  simp only [encodeMultiply, bind_eq_ok, requirePlace_eq_ok, requireRegister_eq_ok, requireSameWidth_eq_ok] at h ⊢
  obtain ⟨v, ⟨rfl, hv⟩, p, rfl, u, hb, h⟩ := h
  rw [Place.reduced_operand]
  refine ⟨v, ⟨rfl, hv⟩, p, rfl, u, hb, ?_⟩
  cases f with
  | immediate z n =>
    dsimp only [Operand.reduced] at h ⊢
    split at h
    · cases h
    · rename_i hn
      obtain rfl := Classical.not_not.1 hn
      simp only [ne_eq, not_true_eq_false, if_false]
      exact immediateValue_reduced h
  | _ => exact h

theorem encodeTest_canonical {d s : Operand} {c : Code} (h : encodeTest d s = .ok c) :
    encodeOperands .test (Instruction.mk .test [d, s]).canonical.operands = .ok c := by
  obtain ⟨pair, hpair, hc⟩ := bind_eq_ok.1 h
  rw [requirePair_eq_ok] at hpair
  cases pair with
  | store p v =>
    obtain ⟨rfl, rfl, -⟩ := hpair
    cases p <;> exact h
  | load v l =>
    obtain ⟨rfl, rfl, hw⟩ := hpair
    have hc : (byWidth l.width 0x84 0x85).withModRm (.register v) (.address l.address) = .ok c := hw ▸ hc
    exact bind_eq_ok.2 ⟨.store (.memory l) v, requirePair_eq_ok.2 ⟨rfl, rfl, hw.symm⟩, hc⟩
  | constant p z =>
    obtain ⟨rfl, rfl⟩ := hpair
    have hr : encodeTest p.operand.reduced (Operand.immediate z p.width.bits).reduced = .ok c :=
      requirePair_reduced (fun _ _ _ => immediateValue_reduced) h
    cases p <;> exact hr

private theorem exchangePartner?_accumulator {w : Width} {v : View} (hb : w ≠ .byte) (hw : v.width = w)
    (hd : v.cell = .rax → w ≠ .dword) : exchangePartner? (.low .rax w) v = some v := by
  have hv := isAccumulator_iff (v := v) (by rw [hw]; exact hb)
  have hu : (Place.register (.low .rax w)).isAccumulator = true := rfl
  unfold exchangePartner?
  rw [if_neg (show ¬ (View.low .rax w).width = .byte from hb), hu]
  by_cases hc : v.cell = .rax
  · simp [Option.filter, View.width, hd hc]
  · simp [Option.filter, hv, hc]

theorem encodeExchange_canonical {a b : Operand} {c : Code} (h : encodeExchange a b = .ok c) :
    encodeOperands .xchg (Instruction.mk .xchg [a, b]).canonical.operands = .ok c := by
  have h0 := h
  simp only [encodeExchange, bind_eq_ok, requirePlace_eq_ok, requirePair_eq_ok] at h
  obtain ⟨q, rfl, pair, hpair, h⟩ := h
  cases pair with
  | store p v =>
    obtain ⟨rfl, hv, hw⟩ := hpair
    rw [hv] at h0 ⊢
    cases p with
    | register u =>
      obtain ⟨hsome, hnone⟩ := exchangePartner_spec hw
      rw [Place.operand]
      dsimp only at h
      split at h
      · rename_i partner hpartner
        obtain ⟨hb, hpw, hd, hcanonical⟩ := hsome partner hpartner
        rw [hcanonical]
        refine bind_eq_ok.2 ⟨.register partner, rfl, bind_eq_ok.2
          ⟨.store (.register (.low .rax u.width)) partner, requirePair_eq_ok.2 ⟨rfl, rfl, hpw.symm⟩, ?_⟩⟩
        dsimp only
        rw [exchangePartner?_accumulator hb hpw hd]
        exact h
      · rename_i hpartner
        rw [hnone hpartner]
        exact h0
    | memory l => exact h0
  | load v l =>
    obtain ⟨rfl, hq, hw⟩ := hpair
    have h : (byWidth l.width 0x86 0x87).withModRm (.register v) (.address l.address) = .ok c := hw ▸ h
    rw [hq]
    exact bind_eq_ok.2 ⟨.register v, rfl, bind_eq_ok.2
      ⟨.store (.memory l) v, requirePair_eq_ok.2 ⟨rfl, rfl, hw.symm⟩, h⟩⟩
  | constant p z => cases h

end MachineCode

namespace Instruction

private theorem isVector_reduced (o : Operand) : o.reduced.isVector = o.isVector := by
  cases o <;> rfl

theorem usesVector_canonical (i : Instruction) : i.canonical.usesVector = i.usesVector := by
  have hmap : (i.operands.map Operand.reduced).any Operand.isVector = i.usesVector := by
    rw [List.any_map]
    exact congrArg (fun f => i.operands.any f) (funext isVector_reduced)
  rw [← hmap]
  unfold usesVector canonical
  dsimp only
  split
  · rename_i heq
    rw [heq]
    simp [Operand.isVector]
  · rename_i heq
    rw [heq]
    simp [Operand.isVector]
  · rename_i heq
    rw [heq]
    simp [Operand.isVector]
  · rename_i heq
    rw [heq]
    split <;> simp [Operand.isVector]
  · rfl

private theorem encodeOperands_canonical {i : Instruction} {c : Code} (hi : i.WellFormed)
    (h : MachineCode.encodeOperands i.mnemonic i.operands = .ok c) :
    MachineCode.encodeOperands i.mnemonic i.canonical.operands = .ok c := by
  obtain ⟨m, operands⟩ := i
  have hc := hi.count
  dsimp only at h hc ⊢
  match operands, hi, hc with
  | [], _, _ => cases m <;> exact h
  | [o], _, hc =>
    cases m with
    | push => exact MachineCode.encodePush_reduced h
    | pop => cases o <;> exact h
    | _ =>
      first
      | simp [Mnemonic.operandCounts] at hc; done
      | cases o <;> exact h
  | [d, s], hi, hc =>
    cases m with
    | mov => exact MachineCode.encodeMove_reduced h
    | add | or | adc | sbb | and | sub | xor | cmp => exact MachineCode.encodeArithmetic_reduced h
    | test => exact MachineCode.encodeTest_canonical h
    | xchg => exact MachineCode.encodeExchange_canonical h
    | shl | shr | sar | rol | ror => exact MachineCode.encodeShift_reduced (hi.count_bits rfl) h
    | _ =>
      -- no other form has an immediate
      first
      | simp [Mnemonic.operandCounts] at hc; done
      | cases d <;> cases s <;> exact h
  | [d, s, f], _, hc =>
    cases m with
    | imul => exact MachineCode.encodeMultiply_reduced h
    | _ => simp [Mnemonic.operandCounts] at hc
  | d :: s :: f :: g :: rest, _, hc => cases m <;> simp [Mnemonic.operandCounts] at hc

theorem code_canonical {i : Instruction} {c : Code} (hi : i.WellFormed) (h : i.code = .ok c) :
    i.canonical.code = .ok c := by
  rw [code_eq_ok] at h ⊢
  rw [usesVector_canonical]
  exact ⟨h.1, encodeOperands_canonical hi h.2⟩

end Instruction

end LongMode

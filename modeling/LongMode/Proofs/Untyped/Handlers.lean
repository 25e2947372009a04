import LongMode.Proofs.Execution.Writes
import LongMode.Proofs.Machine.Memory
import LongMode.Proofs.Untyped.Execution
import LongMode.Proofs.Untyped.Frame

/-!
# The engine needs no types

On the untyped form of an instruction whose immediates have bits, and a machine whose memory is as long as its
capacity, the untyped engine does what the library does: it ends with the same machine, or with the same fault.  One
lemma for each handler, over lemmas for the checks of operands that say what is known behind a check.

* `handler_eq`: every handler, on as many operands as its mnemonic takes.
* `execute_erase`: the checks, the handler and the commit.
-/

namespace LongMode.Untyped

variable {α : Type} {i : LongMode.Instruction} {t : Transaction}

/-- A result of a check, said of an instruction. -/
def denied (i : LongMode.Instruction) (x : Except Refusal α) : Executing α :=
  settled (x.mapError fun r => (Fault.refused i r).notice)

/-- What the library does once it has found the operation. -/
def operated (i : LongMode.Instruction) (t : Transaction) (x : Except Refusal Operation) : Executing Transaction := do
  performed i ((← denied i x).run t)

theorem deny_erase (r : Refusal) : (i.erase.deny r : Executing α) = denied i (.error r) := refuse_erase i _ _

/-! ### Operand checks -/

private theorem requirePlace_bind {o : LongMode.Operand} {x : Unit → Executing Transaction}
    {g : Place → Except Refusal Operation} (ho : o.isVector = false)
    (h : ∀ p : Place, o = p.operand → x () = operated i t (g p)) :
    requirePlace i.erase o.erase >>= x = operated i t (Operation.requirePlace o >>= g) := by
  cases o with
  | register v => exact h (.register v) rfl
  | vector r => cases ho
  | immediate z n =>
    show i.erase.deny .immediateInPlace >>= x = _
    rw [deny_erase]
    rfl
  | memory l => exact h (.memory l) rfl

/-- An operation on one place, which is checked. -/
private theorem ofPlace_bind {o : LongMode.Operand} {x : Unit → Executing Transaction} {op : Place → Operation}
    (ho : o.isVector = false) (h : ∀ p : Place, o = p.operand → x () = performed i ((op p).run t)) :
    requirePlace i.erase o.erase >>= x = operated i t (Operation.ofPlace op o) := by
  have hmap : Operation.ofPlace op o = Operation.requirePlace o >>= fun p => .ok (op p) := by cases o <;> rfl
  rw [hmap]
  exact requirePlace_bind ho h

private theorem requireSameWidth_bind {d s : LongMode.Operand} {x : Unit → Executing Transaction}
    {y : Except Refusal Operation} (h : d.bits = s.bits → x () = operated i t y) :
    requireSameWidth i.erase d.erase s.erase >>= x = operated i t (do Operation.requireSameWidth d s; y) := by
  rw [requireSameWidth, Operation.requireSameWidth, width_erase, width_erase]
  split
  · exact h ‹_›
  · rw [deny_erase]
    rfl

private theorem requireRegister_bind {widths : List Width} {o : LongMode.Operand} {x : Unit → Executing Transaction}
    {g : View → Except Refusal Operation} (h : ∀ v, o = .register v → x () = operated i t (g v)) :
    requireRegister i.erase widths o.erase >>= x = operated i t (Operation.requireRegister widths o >>= g) := by
  unfold requireRegister
  rw [deny_erase, deny_erase]
  cases o with
  | register v =>
    simp only [LongMode.Operand.erase, Operand.isRegister, Operand.width, View.bits, contains_bits, if_true,
      Operation.requireRegister]
    by_cases hv : widths.contains v.width
    · rw [if_pos hv, if_pos hv]
      exact h v rfl
    · rw [if_neg hv, if_neg hv]
      rfl
  | vector r =>
    simp only [LongMode.Operand.erase, Operand.isRegister, Operand.width, contains_vector_bits, if_true]
    rfl
  | _ => rfl

/-- A source is any operand but a vector register. -/
private theorem requireSource_bind {o : LongMode.Operand} {x : Executing Transaction}
    {g : Source → Except Refusal Operation} (ho : o.isVector = false)
    (h : ∀ s : Source, o = s.operand → x = operated i t (g s)) :
    x = operated i t (Operation.requireSource o >>= g) := by
  cases o with
  | register v => exact h (.register v) rfl
  | vector r => cases ho
  | immediate z n => exact h (.immediate z n) rfl
  | memory l => exact h (.memory l) rfl

private theorem requireRegisterPair_bind {d s : LongMode.Operand} {x : Unit → Executing Transaction}
    {f : View → Place → Operation} (hs : s.isVector = false)
    (hx : ∀ (v : View) (p : Place), d = .register v → s = p.operand → x () = performed i ((f v p).run t)) :
    requireRegisterPair i.erase d.erase s.erase >>= x = operated i t (Operation.ofRegisterPair f d s) := by
  have hpair : Operation.ofRegisterPair f d s = (do
      let v ← Operation.requireRegister Width.wordOrMore d
      let p ← Operation.requirePlace s
      Operation.requireSameWidth d s
      return f v p) := by
    simp only [Operation.ofRegisterPair, Operation.requireRegisterPair, bind_assoc, pure_bind]
  rw [hpair]
  simp only [requireRegisterPair, bind_assoc]
  exact requireRegister_bind fun v hv => requirePlace_bind hs fun p hp => requireSameWidth_bind fun _ => hx v p hv hp

private theorem requireCount_bind {c : LongMode.Operand} {x : Unit → Executing Transaction}
    {g : Source → Except Refusal Operation} (hc : c.isVector = false)
    (h : ∀ s : Source, c = s.operand → x () = operated i t (g s)) :
    requireCount i.erase c.erase >>= x = operated i t (Operation.requireCount c >>= g) := by
  cases c with
  | register v =>
    have hname : v.name = "cl" ↔ v = .low .rcx .byte := name_view_inj (v := .low .rcx .byte)
    show (if v.name = "cl" then _ else _) >>= x = operated i t ((if v = .low .rcx .byte then _ else _) >>= g)
    by_cases hv : v = .low .rcx .byte
    · rw [if_pos (hname.2 hv), if_pos hv]
      exact h (.register v) rfl
    · rw [if_neg (mt hname.1 hv), if_neg hv, deny_erase]
      rfl
  | vector r => cases hc
  | immediate z n => exact h (.immediate z n) rfl
  | memory l =>
    show i.erase.deny .countOperand >>= x = _
    rw [deny_erase]
    rfl

private theorem finish_place (p : Place) (r : Flagged) :
    finish t p.operand.erase r = performed i (t.finish p r) := by
  rw [finish, write_place (i := i), Transaction.finish, performed_bind]
  rfl

private theorem carryFor_eq {m : Mnemonic} {counted : Bool} (hc : decide (i.mnemonic = m) = counted) :
    carryFor t i.erase m = .ok (counted && t.flag .carry) := by
  subst hc
  show (if i.mnemonic = m then readFlag t "CF" else .ok false) = _
  by_cases hm : i.mnemonic = m
  · rw [if_pos hm, decide_eq_true hm]
    rfl
  · rw [if_neg hm, decide_eq_false hm]
    rfl

/-! ### A destination and a source of one width -/

section

variable {d s : LongMode.Operand} (hi : i.operands = [d, s]) (hd : d.isVector = false) (hs : s.isVector = false)
  (hm : ¬ (d.isMemory = true ∧ s.isMemory = true)) (h : t.machine.memory.size = t.machine.capacity)

include hi hd hs hm

private theorem requirePair_bind {x : Unit → Executing Transaction} {f : Place → Source → Operation}
    (hx : ∀ (p : Place) (src : Source), d = p.operand → s = src.operand → x () = performed i ((f p src).run t)) :
    requirePair i.erase >>= x = operated i t (Operation.ofPair f d s) := by
  have hpair : Operation.ofPair f d s = (do
      let p ← Operation.requirePlace d
      Operation.requireSameWidth d s
      let src ← Operation.requireSource s
      return f p src) := by
    simp only [Operation.ofPair, Operation.requirePair, bind_assoc, pure_bind]
  have hmemory : (d.erase.isMemory && s.erase.isMemory) = false := by
    cases d <;> cases s <;> first | rfl | exact absurd ⟨rfl, rfl⟩ hm
  have hchecks : requirePair i.erase >>= x = (do
      requirePlace i.erase d.erase
      requireSameWidth i.erase d.erase s.erase
      x ()) := by
    simp only [requirePair, double_erase hi, hmemory, ok_bind, bind_assoc]
    rfl
  rw [hchecks, hpair]
  exact requirePlace_bind hd fun p hp =>
    requireSameWidth_bind fun _ => requireSource_bind hs fun src hsrc => hx p src hp hsrc

include h

theorem performMove_eq : performMove t i.erase = operated i t (Operation.ofPair .move d s) := by
  refine requirePair_bind hi hd hs hm fun p src hp hsrc => ?_
  subst hp hsrc
  simp only [double_erase hi, read_source (i := i) h, write_place (i := i), Operation.run, performed_bind, ok_bind]

theorem performAdd_eq {withCarry : Bool} (hc : decide (i.mnemonic = .adc) = withCarry) :
    performAdd t i.erase = operated i t (Operation.ofPair (.add withCarry) d s) := by
  refine requirePair_bind hi hd hs hm fun p src hp hsrc => ?_
  subst hp hsrc
  simp only [double_erase hi, carryFor_eq hc, width_place, atSignBit_eq (Width.bits_pos _), finish_place (i := i),
    read_source (i := i) h, read_place (i := i) h, Operation.run, performed_bind, ok_bind]

theorem performSubtract_eq {withBorrow : Bool} (hc : decide (i.mnemonic = .sbb) = withBorrow)
    (hne : i.mnemonic ≠ .cmp) :
    performSubtract t i.erase = operated i t (Operation.ofPair (.subtract withBorrow) d s) := by
  refine requirePair_bind hi hd hs hm fun p src hp hsrc => ?_
  subst hp hsrc
  have hcmp : i.erase.mnemonic ≠ .cmp := hne
  simp only [double_erase hi, carryFor_eq hc, width_place, atSignBit_eq (Width.bits_pos _), finish_place (i := i), hcmp,
    if_false, read_source (i := i) h, read_place (i := i) h, Operation.run, performed_bind, ok_bind]

theorem performSubtract_compare_eq (hcmp : i.mnemonic = .cmp) :
    performSubtract t i.erase = operated i t (Operation.ofPair .compare d s) := by
  refine requirePair_bind hi hd hs hm fun p src hp hsrc => ?_
  subst hp hsrc
  have hcmp' : i.erase.mnemonic = .cmp := hcmp
  have hborrow : carryFor t i.erase .sbb = .ok false := by
    rw [carryFor, hcmp']
    rfl
  simp only [double_erase hi, hborrow, width_place, atSignBit_eq (Width.bits_pos _), hcmp', if_true,
    read_source (i := i) h, read_place (i := i) h, Operation.run, performed_bind, performed_pure, ok_bind]
  rfl

theorem performBitwise_eq {op : Bitwise}
    (hop : find bitwiseOperations i.mnemonic = (.ok (Transaction.Bitwise.apply op) : Executing _))
    (hne : i.mnemonic ≠ .test) :
    performBitwise t i.erase = operated i t (Operation.ofPair (.bitwise op) d s) := by
  refine requirePair_bind hi hd hs hm fun p src hp hsrc => ?_
  subst hp hsrc
  have hop' : find bitwiseOperations i.erase.mnemonic = (.ok (Transaction.Bitwise.apply op) : Executing _) := hop
  have htest : i.erase.mnemonic ≠ .test := hne
  simp only [double_erase hi, hop', htest, if_false, width_place, atSignBit_eq (Width.bits_pos _),
    finish_place (i := i), read_source (i := i) h, read_place (i := i) h, Operation.run, performed_bind, ok_bind]

theorem performBitwise_test_eq (htest : i.mnemonic = .test) :
    performBitwise t i.erase = operated i t (Operation.ofPair .test d s) := by
  refine requirePair_bind hi hd hs hm fun p src hp hsrc => ?_
  subst hp hsrc
  have htest' : i.erase.mnemonic = .test := htest
  simp only [double_erase hi, htest', if_true, width_place, atSignBit_eq (Width.bits_pos _),
    read_source (i := i) h, read_place (i := i) h, Operation.run, performed_bind, performed_pure, ok_bind]
  rfl

end

/-! ### Registers that take a value -/

section

variable {d s : LongMode.Operand} (hi : i.operands = [d, s]) (hs : s.isVector = false)
  (h : t.machine.memory.size = t.machine.capacity)

private theorem extends_iff {w : Width} {n : Nat} :
    ((w.bits = 8 ∨ w.bits = 16) ∧ w.bits < n) ↔ (Operation.isByteOrWord w && w.bits < n) = true := by
  have hw : (w.bits = 8 ∨ w.bits = 16) ↔ Operation.isByteOrWord w = true := by cases w <;> decide
  rw [hw, Bool.and_eq_true, decide_eq_true_eq]

include hi

theorem performLoadAddress_eq : performLoadAddress t i.erase = operated i t (Operation.ofLoadAddress d s) := by
  simp only [performLoadAddress, double_erase hi, ok_bind]
  refine requireRegister_bind fun v hv => ?_
  subst hv
  cases s with
  | memory l =>
    show effectiveAddress t _ _ _ _ >>= _ = .ok (t.writeView v (t.effectiveAddress l.address))
    rw [effectiveAddress_erase, ok_bind, write_register]
  | _ => exact deny_erase _

include hs h

theorem performZeroExtension_eq : performZeroExtension t i.erase = operated i t (Operation.ofZeroExtension d s) := by
  simp only [performZeroExtension, double_erase hi, ok_bind]
  refine requireRegister_bind fun v hv => requirePlace_bind hs fun p hp => ?_
  subst hv hp
  rw [width_place, width_register]
  by_cases hw : (Operation.isByteOrWord p.width && p.width.bits < v.bits) = true
  · rw [if_pos (extends_iff.2 hw), if_pos hw]
    show _ = performed i (do return t.writeView v (← t.readPlace p))
    simp only [read_place (i := i) h, write_register, performed_bind]
    rfl
  · rw [if_neg (mt extends_iff.1 hw), if_neg hw, deny_erase]
    rfl

theorem performSignExtension_eq (hne : i.mnemonic ≠ .movsxd) :
    performSignExtension t i.erase = operated i t (Operation.ofSignExtension d s) := by
  have hne' : i.erase.mnemonic ≠ .movsxd := hne
  simp only [performSignExtension, double_erase hi, ok_bind]
  refine requirePlace_bind hs fun p hp => ?_
  simp only [requireSignExtension, hne', if_false, bind_assoc]
  refine requireRegister_bind fun v hv => ?_
  subst hv hp
  rw [width_place, width_register]
  by_cases hw : (Operation.isByteOrWord p.width && p.width.bits < v.bits) = true
  · rw [if_pos (extends_iff.2 hw), if_pos hw]
    show _ = performed i (do return t.writeView v (LongMode.signed p.width.bits (← t.readPlace p)))
    simp only [read_place (i := i) h, write_register, signed_eq (Width.bits_pos _), performed_bind, pure_bind, ok_bind]
    rfl
  · rw [if_neg (mt extends_iff.1 hw), if_neg hw, deny_erase]
    rfl

theorem performSignExtension_dword_eq (hmovsxd : i.mnemonic = .movsxd) :
    performSignExtension t i.erase = operated i t (Operation.ofDwordSignExtension d s) := by
  have hm : i.erase.mnemonic = .movsxd := hmovsxd
  simp only [performSignExtension, double_erase hi, ok_bind]
  refine requirePlace_bind hs fun p hp => ?_
  simp only [requireSignExtension, hm, if_true, bind_assoc]
  refine requireRegister_bind fun v hv => ?_
  subst hv hp
  have hdword : p.width.bits = 32 ↔ p.width = .dword := by cases p.width <;> decide
  rw [width_place]
  by_cases hw : p.width = .dword
  · rw [if_pos (hdword.2 hw), if_pos hw]
    show _ = performed i (do return t.writeView v (LongMode.signed p.width.bits (← t.readPlace p)))
    simp only [read_place (i := i) h, write_register, signed_eq (Width.bits_pos _), performed_bind, pure_bind, ok_bind]
    rfl
  · rw [if_neg (mt hdword.1 hw), if_neg hw, deny_erase]
    rfl

theorem performConditionalMove_eq {zero : Bool} (hz : (i.mnemonic == .cmove) = zero) :
    performConditionalMove t i.erase = operated i t (Operation.ofRegisterPair (.moveIf zero) d s) := by
  simp only [performConditionalMove, double_erase hi, ok_bind]
  refine requireRegisterPair_bind hs fun v p hv hp => ?_
  subst hv hp
  have hzero : (i.erase.mnemonic == .cmove) = zero := hz
  have hflag : readFlag t "ZF" = .ok (t.flag .zero) := rfl
  have hdword : v.bits = 32 ↔ v.width = .dword := by unfold View.bits; cases v.width <;> decide
  simp only [read_place (i := i) h, read_register, write_register, hflag, hzero, width_register, hdword, ok_bind,
    Operation.run, performed_bind]
  refine bind_congr fun a => ?_
  split
  · rfl
  · split <;> rfl

theorem performScan_eq {k : Scan} (hk : (if i.mnemonic = .bsf then Scan.forward else .reverse) = k) :
    performScan t i.erase = operated i t (Operation.ofRegisterPair (.scan k) d s) := by
  simp only [performScan, double_erase hi, ok_bind]
  refine requireRegisterPair_bind hs fun v p hv hp => ?_
  subst hv hp
  have hk' : (if i.erase.mnemonic = .bsf then Scan.forward else .reverse) = k := hk
  simp only [read_place (i := i) h, finish, write_register, hk', ok_bind, Operation.run, performed_bind]
  refine bind_congr fun a => ?_
  cases Transaction.Scan.apply k a <;> rfl

end

/-! ### Exchange and stack -/

private theorem readRegister_rsp : readRegister t "rsp" = .ok (t.readView (.low .rsp .qword)) :=
  readRegister_name (.low .rsp .qword)

private theorem writeRegister_rsp (value : Int) :
    writeRegister t "rsp" value = .ok (t.writeView (.low .rsp .qword) value) :=
  writeRegister_name (.low .rsp .qword) value

section

variable (h : t.machine.memory.size = t.machine.capacity)

include h

theorem performExchange_eq {a b : LongMode.Operand} (hi : i.operands = [a, b]) (ha : a.isVector = false)
    (hb : b.isVector = false) (hm : ¬ (a.isMemory = true ∧ b.isMemory = true)) :
    performExchange t i.erase = operated i t (Operation.ofExchange a b) := by
  simp only [performExchange, double_erase hi, ok_bind]
  refine requirePlace_bind hb fun q hq => ?_
  subst hq
  -- a pair of places is a pair whose source is a place
  have hpair := requirePair_bind (t := t) hi ha hb hm (f := fun p _ => .exchange p q)
    (x := fun _ => do
      let x ← read t a.erase
      let y ← read t q.operand.erase
      write (← write t a.erase y) q.operand.erase x) fun p src hp _ => by
        subst hp
        simp only [read_place (i := i) h, write_place (i := i), Operation.run, performed_bind]
  have hsource : Operation.requireSource q.operand = .ok q.source := by cases q <;> rfl
  simp only [Operation.ofPair, Operation.requirePair, hsource, bind_assoc, pure_bind, ok_bind] at hpair
  exact hpair

theorem performPush_eq {s : LongMode.Operand} (hi : i.operands = [s]) (hs : s.isVector = false) :
    performPush t i.erase = operated i t (Operation.ofPush s) := by
  simp only [performPush, single_erase hi, ok_bind]
  rw [width_erase, Operation.ofPush]
  by_cases hw : s.bits = 64
  · rw [if_neg (not_not_intro hw), if_pos hw]
    have hmap : (Operation.requireSource s).map Operation.push =
        Operation.requireSource s >>= fun src => .ok (.push src) := by cases s <;> rfl
    rw [hmap]
    refine requireSource_bind hs fun src hsrc => ?_
    subst hsrc
    show _ = performed i _
    simp only [read_source (i := i) h, writeRegister_rsp, readRegister_rsp, writeMemory_eq (i := i), ok_bind,
      Operation.run, performed_bind]
    rfl
  · rw [if_pos hw, if_neg hw, deny_erase]
    rfl

theorem performPop_eq {d : LongMode.Operand} (hi : i.operands = [d]) (hd : d.isVector = false) :
    performPop t i.erase = operated i t (Operation.ofPop d) := by
  simp only [performPop, single_erase hi, ok_bind]
  refine requirePlace_bind hd fun p hp => ?_
  subst hp
  have hqword : p.width.bits ≠ 64 ↔ ¬ p.width = .qword := by cases p.width <;> decide
  rw [width_place]
  by_cases hw : p.width = .qword
  · rw [if_neg (mt hqword.1 (not_not_intro hw)), if_pos hw]
    show _ = performed i _
    simp only [writeRegister_rsp, readRegister_rsp, readMemory_eq (i := i) h, write_place (i := i), ok_bind,
      Operation.run, performed_bind]
  · rw [if_pos (hqword.2 hw), if_neg hw, deny_erase]
    rfl

end

/-! ### The accumulator -/

private theorem accumulators_eq (w : Width) : ∃ high : String, (find accumulators w.bits : Executing _) =
    .ok ((Transaction.lowHalf w).name, high) ∧ (w ≠ .byte → high = (Transaction.highHalf w).name) := by
  cases w
  · exact ⟨"ah", rfl, fun h => absurd rfl h⟩
  · exact ⟨"dx", rfl, fun _ => rfl⟩
  · exact ⟨"edx", rfl, fun _ => rfl⟩
  · exact ⟨"rdx", rfl, fun _ => rfl⟩

private theorem bits_eq_eight {w : Width} : w.bits = 8 ↔ w = .byte := by cases w <;> decide

private theorem writeHalves_eq (w : Width) (high low : Nat) :
    writeHalves t w.bits high low = .ok (t.writeHalves w high low) := by
  obtain ⟨highName, hfind, hhigh⟩ := accumulators_eq w
  simp only [writeHalves, hfind, ok_bind, Transaction.writeHalves]
  by_cases hw : w = .byte
  · rw [if_pos (bits_eq_eight.2 hw), if_pos hw]
    exact writeRegister_name (.low .rax .word) _
  · rw [if_neg (mt bits_eq_eight.1 hw), if_neg hw, hhigh hw]
    simp only [writeRegister_name, ok_bind]

private theorem readHalves_eq (w : Width) : readHalves t w.bits = .ok (t.readHalves w) := by
  obtain ⟨highName, hfind, hhigh⟩ := accumulators_eq w
  simp only [readHalves, hfind, ok_bind, Transaction.readHalves]
  by_cases hw : w = .byte
  · rw [if_pos (bits_eq_eight.2 hw), if_pos hw]
    exact readRegister_name (.low .rax .word)
  · rw [if_neg (mt bits_eq_eight.1 hw), if_neg hw, hhigh hw]
    simp only [readRegister_name, ok_bind]
    rfl

/-- What a place holds is a word of its width. -/
private theorem readPlace_lt {p : Place} {a : Nat} (ha : t.readPlace p = .ok a) : a < 2 ^ p.width.bits := by
  cases p with
  | register v =>
    cases ha
    exact View.read_lt v _
  | memory l =>
    have hlength (b n : Nat) : (t.load b n).length = n := by
      induction n generalizing b with
      | zero => rfl
      | succ n ih => exact congrArg (· + 1) (ih (b + 1))
    have hread := mapError_eq_ok.1 ha
    unfold Transaction.readInteger at hread
    split at hread
    · cases hread
      have hlt := ofLittleEndian_lt (t.load (t.effectiveAddress l.address) l.width.bytes)
      rw [hlength] at hlt
      rwa [Place.width, Width.bits, Nat.pow_mul]
    · cases hread

section

variable {o : LongMode.Operand} (hi : i.operands = [o]) (ho : o.isVector = false)
  (h : t.machine.memory.size = t.machine.capacity)

include h

private theorem multiplyHalves_eq (p : Place) (f : Nat → Nat → Nat → Product) :
    multiplyHalves t p.operand.erase f = performed i (t.multiplyHalves p f) := by
  obtain ⟨highName, hfind, -⟩ := accumulators_eq p.width
  simp only [multiplyHalves, width_place, hfind, readRegister_name, read_place (i := i) h,
    atSignBit_eq (Width.bits_pos _), writeHalves_eq, ok_bind, Transaction.multiplyHalves, performed_bind]
  rfl

include hi ho

theorem performUpdate_eq {f : Nat → Nat → Flagged} {op : Place → Operation}
    (hop : ∀ p : Place, (op p).run t = t.update p (f p.width.bits)) :
    performUpdate t i.erase f = operated i t (Operation.ofPlace op o) := by
  simp only [performUpdate, single_erase hi, ok_bind]
  refine ofPlace_bind ho fun p hp => ?_
  subst hp
  simp only [hop, read_place (i := i) h, width_place, atSignBit_eq (Width.bits_pos _), finish_place (i := i), ok_bind,
    Transaction.update, performed_bind]

theorem performComplement_eq : performComplement t i.erase = operated i t (Operation.ofPlace .complement o) := by
  -- no flag is set
  have hnone (x : Except Stop Transaction) : (do return (← x).setFlags FlagEffect.none) = x := by
    cases x <;> rfl
  simp only [performComplement, single_erase hi, ok_bind]
  refine ofPlace_bind ho fun p hp => ?_
  subst hp
  simp only [read_place (i := i) h, width_place, write_place (i := i), Operation.run, Transaction.update,
    Transaction.finish, hnone, performed_bind]

theorem performMultiply_eq : performMultiply t i.erase = operated i t (Operation.ofPlace .multiply o) := by
  simp only [performMultiply, single_erase hi, ok_bind]
  refine ofPlace_bind ho fun p hp => ?_
  subst hp
  exact multiplyHalves_eq h p Word.multiply

theorem performSignedMultiply_one_eq :
    performSignedMultiply t i.erase = operated i t (Operation.ofPlace .multiplySigned o) := by
  have helement : (element i.erase.operands 0 : Executing _) = .ok o.erase := by
    simp only [LongMode.Instruction.erase, hi]
    rfl
  have hlength : i.erase.operands.length = 1 := by
    simp only [LongMode.Instruction.erase, hi]
    rfl
  simp only [performSignedMultiply, helement, hlength, if_true, ok_bind]
  refine ofPlace_bind ho fun p hp => ?_
  subst hp
  exact multiplyHalves_eq h p Word.multiplySigned

/-- Both divisions, by the operation and the function that compute them. -/
private theorem performDivision_of {op : Place → Operation} {f : Nat → Nat → Nat → Division}
    (hop : ∀ p : Place, (op p).run t = t.divideHalves p f)
    (hf : ∀ (w : Width) (n d : Nat), d ≠ 0 → d < 2 ^ w.bits → division i.erase w.bits n d = .ok (f w.bits n d)) :
    performDivision t i.erase = operated i t (Operation.ofPlace op o) := by
  have hrefuse {kind : FaultKind} {message : String} : (i.erase.refuse kind message : Executing Transaction) =
      refused ⟨kind, i.text ++ (": " ++ message)⟩ := by
    rw [refuse_erase, String.append_assoc]
  simp only [performDivision, single_erase hi, ok_bind]
  refine ofPlace_bind ho fun p hp => ?_
  subst hp
  simp only [hop, read_place (i := i) h, width_place, readHalves_eq, writeHalves_eq, hrefuse, ok_bind,
    Transaction.divideHalves]
  cases ha : t.readPlace p with
  | error stop => rfl
  | ok divisor =>
    simp only [performed_ok, ok_bind]
    by_cases hz : divisor = 0
    · rw [if_pos hz, if_pos hz]
      rfl
    · rw [if_neg hz, if_neg hz, hf p.width _ divisor hz (readPlace_lt ha), ok_bind]
      cases (f p.width.bits (t.readHalves p.width) divisor).quotient <;> rfl

theorem performDivision_eq (hm : i.mnemonic = .div) :
    performDivision t i.erase = operated i t (Operation.ofPlace .divide o) :=
  performDivision_of hi ho h (fun _ => rfl) fun _ _ _ hd _ => (if_pos hm).trans (divide_eq hd)

theorem performDivision_signed_eq (hm : i.mnemonic ≠ .div) :
    performDivision t i.erase = operated i t (Operation.ofPlace .divideSigned o) :=
  performDivision_of hi ho h (fun _ => rfl) fun w _ _ hd hlt =>
    (if_neg hm).trans (divideSigned_eq (Width.bits_pos w) hd hlt)

end

theorem performSpreadSign_eq {w : Width}
    (hnames : (if i.mnemonic = .cqo then ("rax", "rdx", 64) else ("eax", "edx", 32)) =
      ((Transaction.lowHalf w).name, (Transaction.highHalf w).name, w.bits)) :
    performSpreadSign t i.erase = operated i t (.ok (.spreadSign w)) := by
  have hnames' : (if i.erase.mnemonic = .cqo then ("rax", "rdx", 64) else ("eax", "edx", 32)) =
      ((Transaction.lowHalf w).name, (Transaction.highHalf w).name, w.bits) := hnames
  unfold performSpreadSign
  rw [hnames']
  simp only [readRegister_name, writeRegister_name, atSignBit_eq (Width.bits_pos _), ok_bind]
  rfl

/-! ### Counts and factors -/

section

variable (h : t.machine.memory.size = t.machine.capacity)

include h

/-- Shifts and rotations, by the operation and the function that moves the bits. -/
private theorem performShift_of {d c : LongMode.Operand} (hi : i.operands = [d, c]) (hd : d.isVector = false)
    (hc : c.isVector = false) {op : Place → Source → Operation} {f : Nat → Nat → Nat → Flagged}
    (hop : ∀ p s, (op p s).run t = t.moveBits p s f)
    (hf : ∀ (w : Width) (value n : Nat), moved i.erase w.bits value n = .ok (f w.bits value n)) :
    performShift t i.erase = operated i t (Operation.ofCount op d c) := by
  simp only [performShift, double_erase hi, ok_bind]
  refine requirePlace_bind hd fun p hp => requireCount_bind hc fun s hs => ?_
  subst hp hs
  show _ = performed i ((op p s).run t)
  simp only [hop, width_place, read_place (i := i) h, read_source (i := i) h, hf, finish_place (i := i), ok_bind,
    Transaction.moveBits, performed_bind]
  cases p with
  | register v =>
    have hdword : ((Place.register v).operand.erase.isRegister && (Place.register v).width.bits == 32) = true ↔
        v.width = .dword := by
      show (true && v.width.bits == 32) = true ↔ _
      cases v.width <;> decide
    have hread : performed i (t.readPlace (.register v)) = .ok (t.readView v) := rfl
    have hwrite : write t (Place.register v).operand.erase (t.readView v) = .ok (t.writeView v (t.readView v)) :=
      write_register v _
    simp only [hread, hdword, hwrite, ok_bind]
    refine bind_congr fun n => ?_
    by_cases hz : maskedCount (Place.register v).width.bits n = 0
    · rw [if_neg (not_not_intro hz), if_pos hz]
      show _ = performed i (if v.width = .dword then _ else _)
      split <;> rfl
    · rw [if_pos hz, if_neg hz]
  | memory l =>
    refine bind_congr fun value => bind_congr fun n => ?_
    by_cases hz : maskedCount (Place.memory l).width.bits n = 0
    · rw [if_neg (not_not_intro hz), if_pos hz]
      rfl
    · rw [if_pos hz, if_neg hz]

theorem performShift_eq {d c : LongMode.Operand} (hi : i.operands = [d, c]) (hd : d.isVector = false)
    (hc : c.isVector = false) {k : Shift} (hk : i.mnemonic.name = k.name)
    (hne : ¬ (i.mnemonic = .rol ∨ i.mnemonic = .ror)) :
    performShift t i.erase = operated i t (Operation.ofCount (.shift k) d c) := by
  refine performShift_of h hi hd hc (fun _ _ => rfl) fun w value n => ?_
  have hname : shiftNamed i.mnemonic.name = .ok k := by
    rw [hk]
    cases k <;> rfl
  show (if i.mnemonic = .rol ∨ i.mnemonic = .ror then _ else shiftNamed i.mnemonic.name >>= _) = _
  rw [if_neg hne, hname]
  exact shift_eq (Width.bits_pos w) k value n

theorem performShift_rotation_eq {d c : LongMode.Operand} (hi : i.operands = [d, c]) (hd : d.isVector = false)
    (hc : c.isVector = false) {k : Rotation} (hk : i.mnemonic.name = k.name)
    (hm : i.mnemonic = .rol ∨ i.mnemonic = .ror) :
    performShift t i.erase = operated i t (Operation.ofCount (.rotate k) d c) := by
  refine performShift_of h hi hd hc (fun _ _ => rfl) fun w value n => ?_
  have hname : rotationNamed i.mnemonic.name = .ok k := by
    rw [hk]
    cases k <;> rfl
  show (if i.mnemonic = .rol ∨ i.mnemonic = .ror then rotationNamed i.mnemonic.name >>= _ else _) = _
  rw [if_pos hm, hname]
  exact rotate_eq (Width.bits_pos w) k value n

private theorem product_eq (v : View) (a b : Source) :
    (do
      let x ← read t a.operand.erase
      let y ← read t b.operand.erase
      let r ← atSignBit (LongMode.Operand.register v).erase.width
        (Word.multiplySigned (LongMode.Operand.register v).erase.width x y)
      finish t (LongMode.Operand.register v).erase ⟨r.low, r.flags⟩) =
      performed i ((Operation.multiplyInto v a b).run t) := by
  simp only [read_source (i := i) h, finish, width_register, write_register, View.bits,
    atSignBit_eq (Width.bits_pos v.width), ok_bind, Operation.run, performed_bind]
  rfl

omit h in
/-- With more than one operand, the first one takes the product. -/
private theorem performSignedMultiply_factors {d s : LongMode.Operand} {rest : List LongMode.Operand}
    (hi : i.operands = d :: s :: rest) :
    performSignedMultiply t i.erase = (do
      requireRegister i.erase Width.wordOrMore d.erase
      let (x, y) ← factors t i.erase d.erase
      let r ← atSignBit d.erase.width (Word.multiplySigned d.erase.width x y)
      finish t d.erase ⟨r.low, r.flags⟩) := by
  have hlength : i.erase.operands.length ≠ 1 := by simp [LongMode.Instruction.erase, hi]
  have hfirst : (element i.erase.operands 0 : Executing _) = .ok d.erase := by
    simp only [LongMode.Instruction.erase, hi]
    rfl
  simp only [performSignedMultiply, hfirst, hlength, if_false, ok_bind]

theorem performSignedMultiply_two_eq {d s : LongMode.Operand} (hi : i.operands = [d, s]) (hs : s.isVector = false) :
    performSignedMultiply t i.erase = operated i t (Operation.ofMultiplyInto d s) := by
  have hinto : Operation.ofMultiplyInto d s = (do
      let v ← Operation.requireRegister Width.wordOrMore d
      let p ← Operation.requirePlace s
      Operation.requireSameWidth d s
      return .multiplyInto v (.register v) p.source) := by
    simp only [Operation.ofMultiplyInto, Operation.requireRegisterPair, bind_assoc, pure_bind]
  have hfactors : factors t i.erase d.erase = (do
      requirePlace i.erase s.erase
      requireSameWidth i.erase d.erase s.erase
      return (← read t d.erase, ← read t s.erase)) := by
    simp only [factors, LongMode.Instruction.erase, hi]
    rfl
  simp only [performSignedMultiply_factors hi, hfactors, hinto, bind_assoc, pure_bind]
  refine requireRegister_bind fun v hv => requirePlace_bind hs fun p hp => requireSameWidth_bind fun _ => ?_
  subst hv hp
  rw [← Place.operand_source]
  exact product_eq h v (.register v) p.source

theorem performSignedMultiply_three_eq {d s f : LongMode.Operand} (hi : i.operands = [d, s, f])
    (hs : s.isVector = false) :
    performSignedMultiply t i.erase = operated i t (Operation.ofMultiplyByConstant d s f) := by
  have hfactors : factors t i.erase d.erase = (do
      requirePlace i.erase s.erase
      requireImmediate i.erase f.erase
      requireSameWidth i.erase d.erase s.erase
      requireSameWidth i.erase d.erase f.erase
      return (← read t s.erase, ← read t f.erase)) := by
    simp only [factors, LongMode.Instruction.erase, hi]
    rfl
  simp only [performSignedMultiply_factors hi, hfactors, bind_assoc, pure_bind]
  refine requireRegister_bind fun v hv => requirePlace_bind hs fun p hp => ?_
  subst hv hp
  cases f with
  | immediate z n =>
    refine requireSameWidth_bind fun _ => requireSameWidth_bind fun _ => ?_
    rw [← Place.operand_source]
    exact product_eq h v p.source (.immediate z n)
  | _ =>
    show i.erase.deny .factor >>= _ = _
    rw [deny_erase]
    rfl

end

theorem performPackedAdd_eq {d s : LongMode.Operand} (hi : i.operands = [d, s]) :
    performPackedAdd t i.erase = operated i t (Operation.ofPackedAdd d s) := by
  have hread (x : VectorRegister) : read t (LongMode.Operand.vector x).erase = .ok (t.readVector x) := by
    show readVector t x.name = _
    rw [readVector, vectorNamed_name]
    rfl
  have hwrite (x : VectorRegister) (value : Int) :
      write t (LongMode.Operand.vector x).erase value = .ok (t.writeVector x value) := by
    show writeVector t x.name value = _
    rw [writeVector, vectorNamed_name]
    rfl
  simp only [performPackedAdd, double_erase hi, isVector_erase, ok_bind]
  cases d with
  | vector x =>
    cases s with
    | vector y =>
      refine (if_neg (by simp [LongMode.Operand.isVector])).trans ?_
      simp only [hread, hwrite, ok_bind]
      rfl
    | _ => exact (if_pos rfl).trans (deny_erase _)
  | _ => exact (if_pos rfl).trans (deny_erase _)

/-! ### All mnemonics -/

private theorem handler_one {o : LongMode.Operand} (hi : i.operands = [o]) (hm : 1 ∈ i.mnemonic.operandCounts)
    (ho : o.isVector = false) (h : t.machine.memory.size = t.machine.capacity) :
    handler i.mnemonic t i.erase = operated i t i.operation := by
  obtain ⟨m, operands⟩ := i
  obtain rfl : operands = [o] := hi
  cases m with
  | push => exact performPush_eq h rfl ho
  | pop => exact performPop_eq h rfl ho
  | inc => exact performUpdate_eq rfl ho h (fun _ => rfl : ∀ p, (Operation.increment p).run t = _)
  | dec => exact performUpdate_eq rfl ho h (fun _ => rfl : ∀ p, (Operation.decrement p).run t = _)
  | neg => exact performUpdate_eq rfl ho h (fun _ => rfl : ∀ p, (Operation.negate p).run t = _)
  | not => exact performComplement_eq rfl ho h
  | mul => exact performMultiply_eq rfl ho h
  | imul => exact performSignedMultiply_one_eq rfl ho h
  | div => exact performDivision_eq rfl ho h rfl
  | idiv => exact performDivision_signed_eq rfl ho h (by simp)
  | _ => simp [Mnemonic.operandCounts] at hm

private theorem handler_two {d s : LongMode.Operand} (hi : i.operands = [d, s]) (hc : 2 ∈ i.mnemonic.operandCounts)
    (hv : i.mnemonic.isPacked = false → d.isVector = false ∧ s.isVector = false)
    (hm : ¬ (d.isMemory = true ∧ s.isMemory = true)) (h : t.machine.memory.size = t.machine.capacity) :
    handler i.mnemonic t i.erase = operated i t i.operation := by
  obtain ⟨m, operands⟩ := i
  obtain rfl : operands = [d, s] := hi
  cases m with
  | mov => exact performMove_eq rfl (hv rfl).1 (hv rfl).2 hm h
  | movzx => exact performZeroExtension_eq rfl (hv rfl).2 h
  | movsx => exact performSignExtension_eq rfl (hv rfl).2 h (by simp)
  | movsxd => exact performSignExtension_dword_eq rfl (hv rfl).2 h rfl
  | lea => exact performLoadAddress_eq rfl
  | xchg => exact performExchange_eq h rfl (hv rfl).1 (hv rfl).2 hm
  | cmove | cmovne => exact performConditionalMove_eq rfl (hv rfl).2 h rfl
  | add | adc => exact performAdd_eq rfl (hv rfl).1 (hv rfl).2 hm h rfl
  | sub | sbb => exact performSubtract_eq rfl (hv rfl).1 (hv rfl).2 hm h rfl (by simp)
  | cmp => exact performSubtract_compare_eq rfl (hv rfl).1 (hv rfl).2 hm h rfl
  | and | or | xor => exact performBitwise_eq rfl (hv rfl).1 (hv rfl).2 hm h rfl (by simp)
  | test => exact performBitwise_test_eq rfl (hv rfl).1 (hv rfl).2 hm h rfl
  | imul => exact performSignedMultiply_two_eq h rfl (hv rfl).2
  | shl | shr | sar => exact performShift_eq h rfl (hv rfl).1 (hv rfl).2 rfl (by simp)
  | rol => exact performShift_rotation_eq h rfl (hv rfl).1 (hv rfl).2 rfl (.inl rfl)
  | ror => exact performShift_rotation_eq h rfl (hv rfl).1 (hv rfl).2 rfl (.inr rfl)
  | bsf | bsr => exact performScan_eq rfl (hv rfl).2 h rfl
  | paddd => exact performPackedAdd_eq rfl
  | _ => simp [Mnemonic.operandCounts] at hc

private theorem handler_eq (hc : i.operands.length ∈ i.mnemonic.operandCounts)
    (hv : i.mnemonic.isPacked = false → ∀ o ∈ i.operands, o.isVector = false) (hm : i.memoryOperands ≤ 1)
    (h : t.machine.memory.size = t.machine.capacity) :
    handler i.mnemonic t i.erase = operated i t i.operation := by
  obtain ⟨m, operands⟩ := i
  match operands, hc, hv, hm with
  | [], hc, _, _ =>
    cases m with
    | cqo => exact performSpreadSign_eq (i := ⟨.cqo, []⟩) (w := .qword) rfl
    | cdq => exact performSpreadSign_eq (i := ⟨.cdq, []⟩) (w := .dword) rfl
    | nop => rfl
    | _ => simp [Mnemonic.operandCounts] at hc
  | [o], hc, hv, _ =>
    refine handler_one rfl hc (hv ?_ o List.mem_cons_self) h
    cases m <;> first | rfl | simp [Mnemonic.operandCounts] at hc
  | [d, s], hc, hv, hm =>
    refine handler_two rfl hc (fun hp => ⟨hv hp d (by simp), hv hp s (by simp)⟩) (fun ⟨hd, hs⟩ => ?_) h
    simp [LongMode.Instruction.memoryOperands, hd, hs] at hm
  | [d, s, f], hc, hv, _ =>
    cases m with
    | imul => exact performSignedMultiply_three_eq h rfl (hv rfl s (by simp))
    | _ => simp [Mnemonic.operandCounts] at hc
  | d :: s :: f :: g :: rest, hc, _, _ => cases m <;> simp [Mnemonic.operandCounts] at hc

/-! ### Execution -/

private theorem denied_bind {β : Type} (x : Except Refusal α) (f : α → Except Refusal β) :
    denied i (x >>= f) = denied i x >>= fun a => denied i (f a) := by
  cases x <;> rfl

private theorem forM_denied {f : LongMode.Operand → Except Refusal Unit} {l : List LongMode.Operand}
    (hf : ∀ o ∈ l, checkImmediate i.erase o.erase = denied i (f o)) :
    forM (l.map LongMode.Operand.erase) (checkImmediate i.erase) = denied i (forM l f) := by
  induction l with
  | nil => rfl
  | cons o rest ih =>
    rw [List.map_cons, List.forM_cons, List.forM_cons, denied_bind, hf o List.mem_cons_self,
      ih fun o ho => hf o (List.mem_cons_of_mem _ ho)]

/-- A check that is made when the one before it passes. -/
private theorem check_bind {c : Prop} [Decidable c] {r : Refusal} {x : Executing Unit}
    {y : Except Refusal Unit} (h : x = denied i y) :
    (do if c then i.erase.deny r
        x) = denied i (do if c then .error r
                          y) := by
  by_cases hc : c
  · simp only [hc, if_true, deny_erase]
    rfl
  · simp only [hc, if_false]
    exact h

private theorem validate_erase (hpos : ∀ z n, .immediate z n ∈ i.operands → 0 < n) :
    validate i.erase = denied i i.check := by
  have hlength : i.erase.operands.length = i.operands.length := List.length_map ..
  have hany : i.erase.operands.any Operand.isVector = i.usesVector := by
    simp only [LongMode.Instruction.erase, List.any_map]
    exact congrArg (List.any i.operands) (funext isVector_erase)
  have hmemory : i.erase.operands.countP Operand.isMemory = i.memoryOperands := by
    simp only [LongMode.Instruction.erase, List.countP_map]
    refine congrArg (fun p => List.countP p i.operands) (funext fun o => ?_)
    cases o <;> rfl
  unfold validate LongMode.Instruction.check
  rw [operandCounts_eq, ok_bind, hlength, hany, hmemory]
  refine check_bind (check_bind (check_bind (forM_denied fun o ho => ?_)))
  cases o with
  | immediate z n =>
    simp only [erase_immediate, checkImmediate, fits_eq (hpos z n ho), ok_bind, deny_erase]
    split <;> rfl
  | _ => rfl

/-- The bytes that an operation stages go where the memory of the machine is. -/
private theorem commit_run {m : Machine} {op : Operation} {u : Transaction} (h : m.memory.size = m.capacity)
    (hrun : op.run (Transaction.start m) = .ok u) : commit u = .ok u.commit := by
  have hw := Transaction.run_writes hrun
  have hstaged : ∀ p ∈ u.memory, p.1 < m.capacity := hw.staged_lt fun p hp => absurd hp List.not_mem_nil
  refine commit_eq fun p hp => ?_
  rw [hw.machine_eq]
  exact h ▸ hstaged p hp

theorem execute_erase {m : Machine} (h : m.memory.size = m.capacity)
    (hpos : ∀ z n, .immediate z n ∈ i.operands → 0 < n) :
    execute m i.erase = settled ((m.execute i).mapError Fault.notice) := by
  rw [Machine.execute_eq, execute, validate_erase hpos]
  cases hcheck : i.check with
  | error r => rfl
  | ok u =>
    obtain ⟨hc, hv, hm, -⟩ := Instruction.check_eq_ok.1 hcheck
    have hvectors (hp : i.mnemonic.isPacked = false) : ∀ o ∈ i.operands, o.isVector = false := fun o ho =>
      Bool.eq_false_iff.2 fun hvector => by
        rw [hv (List.any_eq_true.2 ⟨o, ho, hvector⟩)] at hp
        cases hp
    have hhandler : handler i.mnemonic (Transaction.start m) i.erase = operated i (Transaction.start m) i.operation :=
      handler_eq hc hvectors hm h
    show handler i.mnemonic (Transaction.start m) i.erase >>= commit = _
    rw [hhandler]
    cases i.operation with
    | error r => rfl
    | ok op =>
      show performed i (op.run (Transaction.start m)) >>= commit =
        settled ((do return (← (op.run (Transaction.start m)).mapError (Stop.fault i)).commit).mapError Fault.notice)
      cases hrun : op.run (Transaction.start m) with
      | error stop => rfl
      | ok u => exact commit_run h hrun

end LongMode.Untyped

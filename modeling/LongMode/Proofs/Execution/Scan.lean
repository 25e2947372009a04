import LongMode.Proofs.Arith.Scan
import LongMode.Proofs.Execution.Choice
import LongMode.Proofs.Execution.Refusal
import LongMode.Proofs.Execution.Values
import LongMode.Proofs.Machine.Range

/-!
# Bit scans

* `execute_scan`: a scan of a set bit writes its position and clears the zero flag.
* `execute_scan_zero`: a scan of zero sets the zero flag and writes nothing.
* `scans_find_extremes`: the scans find the lowest and the highest set bit of every positive number, and what they leave
  in a machine is the position of such a bit of the source.
-/

namespace LongMode

/-- The instructions that scan, and where they start. -/
inductive Mnemonic.Scans : Mnemonic → Scan → Prop
  | bsf : Scans .bsf .forward
  | bsr : Scans .bsr .reverse

namespace Transaction

variable {k : Scan} {n i : Nat}

/-- A scan finds nothing in zero only. -/
theorem Scan.apply_eq_none : Scan.apply k n = none ↔ n = 0 := by
  cases k with
  | forward => exact lowestSetBit?_eq_none
  | reverse => exact highestSetBit?_eq_none

/-- What a scan finds is a set bit. -/
theorem Scan.testBit_of_apply (h : Scan.apply k n = some i) : n.testBit i = true := by
  cases k with
  | forward => exact (lowestSetBit?_eq_some_iff_testBit.1 h).1
  | reverse => exact testBit_of_highestSetBit? h

end Transaction

namespace Machine

open Transaction

variable {m : Machine} {i : Instruction} {mn : Mnemonic} {k : Scan} {d s : Operand} {v : View} {p : Place} {x : Nat}

/-- Accepted operands of a scan are a register and a place of its width. -/
theorem operation_scan (hmn : mn.Scans k) (hi : ¬ m.Refuses ⟨mn, [d, s]⟩) :
    ∃ v p, d = .register v ∧ s = p.operand ∧ v.width = p.width ∧
      (Instruction.mk mn [d, s]).check = .ok () ∧ (Instruction.mk mn [d, s]).operation = .ok (.scan k v p) := by
  obtain ⟨hcheck, op, hop⟩ := not_refuses_iff.1 hi
  have hpair : Operation.ofRegisterPair (.scan k) d s = .ok op := by cases hmn <;> exact hop
  obtain ⟨v, p, rfl, hd, hs, -, hw⟩ := Operation.of_ofRegisterPair hpair
  exact ⟨v, p, hd, hs, hw, hcheck, hop⟩

theorem execute_scan (hm : m.memory.size = m.capacity) (hcheck : i.check = .ok ())
    (hop : i.operation = .ok (.scan k v p)) (hread : m.readPlace p = .ok x) {b : Nat}
    (hb : Scan.apply k x = some b) :
    m.execute i = .ok { m.writeView v b with flags := m.flags.set .zero false }.advance := by
  have hrun : (Operation.scan k v p).run (start m) =
      .ok (((start m).writeView v b).setFlags { FlagEffect.none with zero := some false }) := by
    rw [Operation.run, readPlace_start hm, hread, mapError_ok, ok_bind, hb]
    rfl
  rw [execute_of_run hcheck hop hrun, result_setFlags, result_writeView, result_start]
  rfl

theorem execute_scan_zero (hm : m.memory.size = m.capacity) (hcheck : i.check = .ok ())
    (hop : i.operation = .ok (.scan k v p)) (hread : m.readPlace p = .ok 0) :
    m.execute i = .ok { m with flags := m.flags.set .zero true }.advance := by
  have hrun : (Operation.scan k v p).run (start m) =
      .ok ((start m).setFlags { FlagEffect.none with zero := some true }) := by
    rw [Operation.run, readPlace_start hm, hread, mapError_ok, ok_bind, Scan.apply_eq_none.2 rfl]
    rfl
  rw [execute_of_run hcheck hop hrun, result_setFlags, result_start]
  rfl

/-- The position of a set bit of a place is below the width of the place, and so a number that a register of this width
holds. -/
theorem readView_writeView_position (hw : v.width = p.width) (hread : m.readPlace p = .ok x) {b : Nat}
    (hb : x.testBit b = true) : b < v.bits ∧ (m.writeView v b).readView v = b := by
  have hlt : x < 2 ^ v.bits := by
    rw [View.bits, hw]
    exact readPlace_lt hread
  have hbelow : b < v.bits :=
    (Nat.pow_lt_pow_iff_right (by decide)).1 ((Nat.ge_two_pow_of_testBit hb).trans_lt hlt)
  refine ⟨hbelow, ?_⟩
  rw [readView_writeView]
  exact truncate_of_lt (hbelow.trans Nat.lt_two_pow_self)

/-- In every positive number the forward scan finds the lowest set bit and the reverse scan the highest, which are one
bit for the powers of two.  Executed, a scan leaves the position that it finds in the destination, below the width of
the source, or leaves the cells alone if the source holds zero; the zero flag tells which, and no other flag changes. -/
theorem scans_find_extremes :
    (∀ n : Nat, 0 < n → ∃ i j, Scan.apply .forward n = some i ∧ Scan.apply .reverse n = some j ∧
      i = (Int.land n (-n)).toNat.size - 1 ∧ j = n.size - 1 ∧
      n.testBit i = true ∧ (∀ b < i, n.testBit b = false) ∧ 2 ^ i ∣ n ∧ ¬ 2 ^ (i + 1) ∣ n ∧
      2 ^ j ≤ n ∧ n < 2 ^ (j + 1) ∧ i ≤ j ∧ (i = j ↔ ∃ e, n = 2 ^ e)) ∧
    ∀ (m : Machine) (mn : Mnemonic) (k : Scan) (d s : Operand) (x : Nat), m.valid = true → mn.Scans k →
      ¬ m.Refuses ⟨mn, [d, s]⟩ → m.readOperand s = .ok x →
      ∃ v m', d = .register v ∧ v.bits = s.bits ∧ m.execute ⟨mn, [d, s]⟩ = .ok m' ∧
        (x ≠ 0 → ∃ b, Scan.apply k x = some b ∧ m'.readView v = b ∧ b < s.bits ∧ x.testBit b = true ∧
          m'.flags.zero = false) ∧
        (x = 0 → (∀ c, m'.cell c = m.cell c) ∧ m'.flags.zero = true) ∧
        ∀ f, f ≠ .zero → m'.flags.get f = m.flags.get f := by
  constructor
  · intro n hn
    have hlow := lowestSetBit?_eq_size hn.ne'
    have hhigh := highestSetBit?_eq_size hn.ne'
    obtain ⟨hset, hclear⟩ := lowestSetBit?_eq_some_iff_testBit.1 hlow
    obtain ⟨hdvd, hnot⟩ := lowestSetBit?_eq_some_iff_dvd.1 hlow
    obtain ⟨hle, hlt⟩ := highestSetBit?_eq_some_iff.1 hhigh
    exact ⟨_, _, hlow, hhigh, rfl, rfl, hset, hclear, hdvd, hnot, hle, hlt,
      lowestSetBit?_le_highestSetBit? hlow hhigh, lowestSetBit?_eq_highestSetBit?_iff hlow hhigh⟩
  · intro m mn k d s x hm hmn hi hread
    obtain ⟨v, p, rfl, rfl, hw, hcheck, hop⟩ := operation_scan hmn hi
    have hsize := (valid_iff.1 hm).size_eq
    have hbits : v.bits = p.operand.bits := by rw [View.bits, hw, Place.bits_operand]
    have hflags : ∀ z f, f ≠ .zero → (m.flags.set .zero z).get f = m.flags.get f := by
      intro z f hf
      rw [Flags.get_set, if_neg hf.symm]
    rw [readOperand_place] at hread
    cases hb : Scan.apply k x with
    | none =>
      obtain rfl := Scan.apply_eq_none.1 hb
      have hexecute := execute_scan_zero hsize hcheck hop hread
      exact ⟨v, _, rfl, hbits, hexecute, absurd rfl, fun _ => ⟨fun _ => rfl, rfl⟩, hflags true⟩
    | some b =>
      have hset := Scan.testBit_of_apply hb
      obtain ⟨hbelow, hview⟩ := readView_writeView_position hw hread hset
      have hexecute := execute_scan hsize hcheck hop hread hb
      have hx : x ≠ 0 := by
        rintro rfl
        rw [Scan.apply_eq_none.2 rfl] at hb
        cases hb
      exact ⟨v, _, rfl, hbits, hexecute, fun _ => ⟨b, rfl, hview, hbits ▸ hbelow, hset, rfl⟩,
        fun h => absurd h hx, hflags false⟩

/-- A bit beyond every register; a register scanned into itself; and a 32-bit destination that a scan of zero leaves
alone with its upper half. -/
theorem scans_find_extremes_all_ones :
    (∃ i, Scan.apply .forward (2 ^ 100) = some i ∧ Scan.apply .reverse (2 ^ 100) = some i) ∧
    ∃ m : Machine, m.valid = true ∧ m.cell .rax = 2 ^ 64 - 1 ∧
      (∃ m', m.execute ⟨.bsr, [.register (.low .rax .word), .register (.low .rax .word)]⟩ = .ok m' ∧
        m'.readView (.low .rax .word) = 15 ∧ m'.flags.zero = false) ∧
      ∃ m', m.execute ⟨.bsf, [.register (.low .rax .dword), .register (.low .rcx .dword)]⟩ = .ok m' ∧
        m'.cell .rax = 2 ^ 64 - 1 ∧ m'.flags.zero = true := by
  obtain ⟨hnumbers, hexecute⟩ := scans_find_extremes
  obtain ⟨m, hm⟩ : ∃ m, m = (fresh 16).writeView (.low .rax .qword) (-1) := ⟨_, rfl⟩
  have hvalid : m.valid = true := by
    rw [hm]
    decide
  have hones : m.cell .rax = 2 ^ 64 - 1 := by rw [hm]; rfl
  have hword : m.readView (.low .rax .word) = 65535 := by rw [hm]; rfl
  have hzero : m.readView (.low .rcx .dword) = 0 := by rw [hm]; rfl
  refine ⟨?_, m, hvalid, hones, ?_, ?_⟩
  · obtain ⟨i, j, hi, hj, -, -, -, -, -, -, -, -, -, hsame⟩ := hnumbers (2 ^ 100) (Nat.two_pow_pos 100)
    obtain rfl := hsame.2 ⟨100, rfl⟩
    exact ⟨i, hi, hj⟩
  · have hi : ¬ m.Refuses ⟨.bsr, [.register (.low .rax .word), .register (.low .rax .word)]⟩ :=
      not_refuses_iff.2 ⟨rfl, _, rfl⟩
    obtain ⟨v, m', hd, -, hexecute, hfound, -⟩ :=
      hexecute m .bsr .reverse _ _ 65535 hvalid .bsr hi (congrArg Except.ok hword)
    cases hd
    obtain ⟨b, hb, hview, -, -, hflag⟩ := hfound (by decide)
    obtain rfl : 15 = b := Option.some.inj hb
    exact ⟨m', hexecute, hview, hflag⟩
  · have hi : ¬ m.Refuses ⟨.bsf, [.register (.low .rax .dword), .register (.low .rcx .dword)]⟩ :=
      not_refuses_iff.2 ⟨rfl, _, rfl⟩
    obtain ⟨v, m', -, -, hexecute, -, hnone, -⟩ :=
      hexecute m .bsf .forward _ _ 0 hvalid .bsf hi (congrArg Except.ok hzero)
    obtain ⟨hcells, hflag⟩ := hnone rfl
    exact ⟨m', hexecute, (hcells .rax).trans hones, hflag⟩

end Machine

end LongMode

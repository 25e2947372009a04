import LongMode.Proofs.Arith.Sum
import LongMode.Proofs.Execution.Choice
import LongMode.Proofs.Execution.Refusal
import LongMode.Proofs.Execution.Values
import LongMode.Proofs.Machine.Range

/-!
# Comparisons

* `execute_compare`: a comparison changes the flags only, to those of the difference of its operands.
* `sums_exact`: sums and differences of words are exact in value and in every flag, and after a comparison the flags
  say whether the operands are equal, and which is less as a number and as a signed number.
-/

namespace LongMode

namespace Machine

open Transaction

variable {m : Machine} {d s : Operand} {a b : Nat}

theorem execute_compare (hm : m.memory.size = m.capacity) (hi : ¬ m.Refuses ⟨.cmp, [d, s]⟩)
    (ha : m.readOperand d = .ok a) (hb : m.readOperand s = .ok b) :
    m.execute ⟨.cmp, [d, s]⟩ = .ok { m with flags := (Word.sub d.bits a b 0).flags.apply m.flags }.advance := by
  obtain ⟨hcheck, op, hop⟩ := not_refuses_iff.1 hi
  obtain ⟨p, src, rfl, rfl, rfl, -⟩ := Operation.of_ofPair hop
  have hrun : (Operation.compare p src).run (start m) =
      .ok ((start m).setFlags (Word.sub p.width.bits a b 0).flags) := by
    rw [m.readOperand_place] at ha
    rw [Operation.run, readPlace_start hm, ha, mapError_ok, ok_bind, read_start hm, hb, mapError_ok]
    rfl
  rw [execute_of_run hcheck hop hrun, Place.bits_operand, result_setFlags, result_start]

end Machine

namespace Word

/-- Sums and differences of words `a` and `b`, and the flags after a comparison of operands that hold them. -/
theorem sums_exact {w a b c : Nat} (hw : 8 ≤ w) (ha : a < 2 ^ w) (hb : b < 2 ^ w) (hc : c ≤ 1) :
    (add w a b c).Reports w (a + b + c) (signed w a + signed w b + c) (a % 16 + b % 16 + c)
        (some (decide (2 ^ w ≤ a + b + c))) ∧
      (sub w a b c).Reports w (a - b - c) (signed w a - signed w b - c) (a % 16 - b % 16 - c)
        (some (decide (a < b + c))) ∧
      (increment w a).Reports w (a + 1) (signed w a + 1) (a % 16 + 1) none ∧
      (decrement w a).Reports w (a - 1) (signed w a - 1) (a % 16 - 1) none ∧
      (negate w a).Reports w (-a) (-signed w a) (-(a % 16)) (some (decide (a ≠ 0))) ∧
      ∀ (m : Machine) (d s : Operand), m.valid = true → d.bits = w → m.readOperand d = .ok a →
        m.readOperand s = .ok b → ¬ m.Refuses ⟨.cmp, [d, s]⟩ →
        ∃ m', m.execute ⟨.cmp, [d, s]⟩ = .ok m' ∧ (m'.flags.zero = true ↔ a = b) ∧
          (m'.flags.carry = true ↔ a < b) ∧ (m'.flags.sign ≠ m'.flags.overflow ↔ signed w a < signed w b) := by
  refine ⟨reports_add hw ha hb hc, reports_sub hw ha hb hc, reports_increment hw ha, reports_decrement hw ha,
    reports_negate hw ha, ?_⟩
  intro m d s hm hd hread hsource hi
  have hexecute := Machine.execute_compare (Machine.valid_iff.1 hm).size_eq hi hread hsource
  rw [hd] at hexecute
  exact ⟨_, hexecute, sub_compares hw ha hb m.flags⟩

/-- The least signed byte, less one and a borrow, and compared with one. -/
theorem sums_exact_least_byte : (sub 8 128 1 1).Reports 8 126 (-130) (-2) (some false) ∧
    ((Machine.fresh 16).writeView (.low .rax .byte) 128).valid = true ∧
    ∃ m', ((Machine.fresh 16).writeView (.low .rax .byte) 128).execute
        ⟨.cmp, [.register (.low .rax .byte), .immediate 1 8]⟩ = .ok m' ∧
      m'.flags.carry = false ∧ m'.flags.sign ≠ m'.flags.overflow := by
  obtain ⟨-, hsub, -, -, -, hcompare⟩ :=
    @sums_exact 8 128 1 1 (by decide) (by decide) (by decide) (by decide)
  have hm : ((Machine.fresh 16).writeView (.low .rax .byte) 128).valid = true := by decide
  have hi : ¬ ((Machine.fresh 16).writeView (.low .rax .byte) 128).Refuses
      ⟨.cmp, [.register (.low .rax .byte), .immediate 1 8]⟩ := Machine.not_refuses_iff.2 ⟨rfl, _, rfl⟩
  obtain ⟨m', hexecute, -, hcarry, hless⟩ := hcompare _ _ _ hm rfl rfl rfl hi
  exact ⟨hsub, hm, m', hexecute, Bool.eq_false_iff.2 fun h => absurd (hcarry.1 h) (by decide), hless.2 (by decide)⟩

end Word

end LongMode

import LongMode.Machine.Integrity
import LongMode.Proofs.Execution.Writes

/-!
# Machines within their bounds

* `valid_iff`: a machine is valid exactly when every part of it is within its bounds (`Machine.InRange`).
* `keptByWrites_inRange`: every write keeps the bounds, whatever integer is written, and the counter wraps around.
* `inRange_fresh`: a fresh machine is within its bounds if its capacity is a number of 64 bits, because rsp holds it.
-/

namespace LongMode

namespace Machine

/-- Every part is within its bounds. -/
structure InRange (m : Machine) : Prop where
  register_lt : ∀ i, m.registers.get i < 2 ^ 64
  vector_lt : ∀ i, m.vectors.get i < 2 ^ VectorRegister.bits
  rip_nonneg : 0 ≤ m.rip
  rip_lt : m.rip < 2 ^ 64
  size_eq : m.memory.size = m.capacity

end Machine

private theorem Stored.isWord_number {w n : Nat} : Stored.isWord w (.number n) = true ↔ n < 2 ^ w := by
  have h : ((2 ^ w : Nat) : Int) = 2 ^ w := by simp
  simp only [isWord, Bool.and_eq_true, decide_eq_true_eq]
  omega

private theorem Bank.all_isWord {b : Bank} {w : Nat} :
    (b.toList.map fun (n : Nat) => Stored.number n).all (Stored.isWord w) = true ↔ ∀ i, b.get i < 2 ^ w := by
  rw [List.all_map, List.all_eq_true]
  constructor
  · intro h i
    exact Stored.isWord_number.1 (h _ (Vector.mem_toList_iff.2 (Vector.getElem_mem i.isLt)))
  · intro h n hn
    obtain ⟨k, hk, rfl⟩ := Vector.getElem_of_mem (Vector.mem_toList_iff.1 hn)
    exact Stored.isWord_number.2 (h ⟨k, hk⟩)

namespace Machine

private theorem hasAllFlags_stored (m : Machine) :
    m.stored.hasAllFlags = true ∧ m.stored.flags.all (fun p => p.2.isTruth) = true := ⟨rfl, rfl⟩

theorem valid_iff {m : Machine} : m.valid = true ↔ m.InRange := by
  have hflags := m.hasAllFlags_stored
  have hlength : ∀ b : Bank, (b.toList.map fun (n : Nat) => Stored.number n).length = 16 := by
    intro b
    rw [List.length_map]
    exact b.values.length_toList
  have hregisters : m.stored.registers.all (Stored.isWord 64) = true ↔ ∀ i, m.registers.get i < 2 ^ 64 :=
    Bank.all_isWord
  have hvectors : m.stored.vectors.all (Stored.isWord 128) = true ↔ ∀ i, m.vectors.get i < 2 ^ 128 :=
    Bank.all_isWord
  simp only [valid, StoredMachine.valid, Bool.and_eq_true, hflags.1, hflags.2, hregisters, hvectors, beq_iff_eq,
    decide_eq_true_eq, and_true]
  constructor
  · rintro ⟨⟨⟨⟨⟨⟨-, hr⟩, -⟩, hv⟩, h0⟩, hlt⟩, hs⟩
    exact ⟨hr, hv, h0, hlt, Int.ofNat_inj.1 hs⟩
  · rintro ⟨hr, hv, h0, hlt, hs⟩
    exact ⟨⟨⟨⟨⟨⟨hlength _, hr⟩, hlength _⟩, hv⟩, h0⟩, hlt⟩, Int.ofNat_inj.2 hs⟩

private theorem get_set_lt {b : Bank} {bound value : Nat} (hb : ∀ i, b.get i < bound) (hv : value < bound)
    (j : Fin 16) : ∀ i, (b.set j value).get i < bound := by
  intro i
  rw [Bank.get_set]
  split
  · exact hv
  · exact hb i

theorem keptByWrites_inRange : KeptByWrites InRange where
  view m v value h := { h with register_lt := get_set_lt h.register_lt (v.write_lt _ value) _ }
  vector m x value h := { h with vector_lt := get_set_lt h.vector_lt (truncate_lt _ value) _ }
  flags m flags h := { h with }
  memory m address bytes _ h := { h with size_eq := (Memory.size_store _ _ _).trans h.size_eq }
  advance m h :=
    { h with
      rip_nonneg := Int.emod_nonneg _ (by decide)
      rip_lt := Int.emod_lt_of_pos _ (by decide) }

theorem inRange_fresh {capacity : Nat} (h : capacity < 2 ^ 64) : (fresh capacity).InRange where
  register_lt := get_set_lt (fun i => by rw [Bank.get_zero]; decide) h _
  vector_lt i := by rw [fresh, Bank.get_zero]; decide
  rip_nonneg := Int.le_refl 0
  rip_lt := show (0 : Int) < 2 ^ 64 by decide
  size_eq := Memory.size_zeroed capacity

end Machine

end LongMode

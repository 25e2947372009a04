import LongMode.Proofs.Execution.Footprint
import LongMode.Proofs.Execution.Refusal

/-!
# Sums lane by lane

A packed sum adds the four lanes of two vector registers and carries nothing from one lane to the next.

* `ofLanes_lt` and `lane_ofLanes`: lanes within 32 bits that are put together stay within their bits, and each is found
  at its place.
* `lane_addLanes`: every lane of a sum is the sum of the lanes at its place.
* `packed_sum_by_lanes`: the instruction stores these lanes in its first operand and changes nothing else but the
  counter.
-/

namespace LongMode

/-! ### Lanes of a value -/

section

variable {l : List Nat}

theorem ofLanes_lt (h : ∀ x ∈ l, x < 2 ^ 32) : ofLanes l < 2 ^ (32 * l.length) := by
  induction l with
  | nil => decide
  | cons x rest ih =>
    have hx := h x List.mem_cons_self
    have hrest := ih fun y hy => h y (List.mem_cons_of_mem _ hy)
    have hpow : 2 ^ (32 * (rest.length + 1)) = 2 ^ 32 * 2 ^ (32 * rest.length) := by
      rw [Nat.mul_succ, Nat.pow_add, Nat.mul_comm]
    rw [ofLanes, List.length_cons, hpow]
    omega

/-- The lanes below a position leave nothing behind when they are shifted out. -/
theorem lane_ofLanes (h : ∀ x ∈ l, x < 2 ^ 32) {i : Nat} (hi : i < l.length) :
    ofLanes l / 2 ^ (32 * i) % 2 ^ 32 = l[i] := by
  induction l generalizing i with
  | nil => exact absurd hi (Nat.not_lt_zero i)
  | cons x rest ih =>
    have hx := h x List.mem_cons_self
    cases i with
    | zero =>
      rw [ofLanes, Nat.mul_zero, Nat.pow_zero, Nat.div_one, Nat.add_mul_mod_self_left, Nat.mod_eq_of_lt hx]
      rfl
    | succ i =>
      have hi' : i < rest.length := by simpa using hi
      have hrest := ih (fun y hy => h y (List.mem_cons_of_mem _ hy)) hi'
      have hpow : 2 ^ (32 * (i + 1)) = 2 ^ 32 * 2 ^ (32 * i) := by
        rw [Nat.mul_succ, Nat.pow_add, Nat.mul_comm]
      have hshift : (x + 2 ^ 32 * ofLanes rest) / 2 ^ 32 = ofLanes rest := by omega
      rw [ofLanes, hpow, ← Nat.div_div_eq_div_mul, hshift, hrest]
      rfl

end

namespace Transaction

variable (a b : Nat)

private theorem lanes_addLanes_lt :
    ∀ x ∈ List.zipWith (fun x y => (x + y) % 2 ^ 32) (lanes a) (lanes b), x < 2 ^ 32 := by
  intro x hx
  obtain ⟨i, hi, rfl⟩ := List.mem_iff_getElem.1 hx
  rw [List.getElem_zipWith]
  exact Nat.mod_lt _ (Nat.two_pow_pos 32)

theorem addLanes_lt : addLanes a b < 2 ^ 128 := by
  have hlength : (List.zipWith (fun x y => (x + y) % 2 ^ 32) (lanes a) (lanes b)).length = 4 := by simp [lanes]
  have h := ofLanes_lt (lanes_addLanes_lt a b)
  rw [hlength] at h
  exact h

theorem lane_addLanes {i : Nat} (hi : i < 4) :
    addLanes a b / 2 ^ (32 * i) % 2 ^ 32 =
      (a / 2 ^ (32 * i) % 2 ^ 32 + b / 2 ^ (32 * i) % 2 ^ 32) % 2 ^ 32 := by
  have hlength : i < (List.zipWith (fun x y => (x + y) % 2 ^ 32) (lanes a) (lanes b)).length := by
    simpa [lanes] using hi
  have hlane : ∀ (n : Nat) (h : i < (lanes n).length), (lanes n)[i] = n / 2 ^ (32 * i) % 2 ^ 32 := by
    intro n h
    simp only [lanes, List.getElem_map, List.getElem_range]
  rw [addLanes, lane_ofLanes (lanes_addLanes_lt a b) hlength, List.getElem_zipWith, hlane, hlane]

end Transaction

/-! ### The instruction -/

namespace Machine

open Transaction

theorem execute_addPacked (m : Machine) (d s : VectorRegister) :
    m.execute ⟨.paddd, [.vector d, .vector s]⟩ =
      .ok (m.writeVector d (addLanes (m.readVector d) (m.readVector s))).advance :=
  execute_of_operation (i := ⟨.paddd, [.vector d, .vector s]⟩) rfl rfl m

/-- A packed sum puts into each lane of its first operand the sum of the two lanes there modulo `2 ^ 32`, whether or not
the operands are the same register.  It leaves every other vector register, every cell, the flags and the memory alone.
A value of 128 bits is put together again from its lanes. -/
theorem packed_sum_by_lanes (m : Machine) (d s : VectorRegister) :
    (∃ m', m.execute ⟨.paddd, [.vector d, .vector s]⟩ = .ok m' ∧
      (∀ i < 4, m'.readVector d / 2 ^ (32 * i) % 2 ^ 32 =
        (m.readVector d / 2 ^ (32 * i) % 2 ^ 32 + m.readVector s / 2 ^ (32 * i) % 2 ^ 32) % 2 ^ 32) ∧
      m'.readVector d < 2 ^ 128 ∧ (∀ x, x ≠ d → m'.readVector x = m.readVector x) ∧
      (∀ c, m'.cell c = m.cell c) ∧ m'.flags = m.flags ∧ m'.memory = m.memory ∧ m'.capacity = m.capacity) ∧
    ∀ n < 2 ^ 128, ofLanes (lanes n) = n := by
  have hsum := addLanes_lt (m.readVector d) (m.readVector s)
  have hread : ∀ x, (m.writeVector d (addLanes (m.readVector d) (m.readVector s))).advance.readVector x =
      if d = x then addLanes (m.readVector d) (m.readVector s) else m.readVector x := by
    intro x
    have hvalue : truncate VectorRegister.bits (addLanes (m.readVector d) (m.readVector s)) =
        addLanes (m.readVector d) (m.readVector s) := truncate_of_lt hsum
    have hwritten := m.readVector_writeVector d x (addLanes (m.readVector d) (m.readVector s))
    rw [hvalue] at hwritten
    exact hwritten
  refine ⟨⟨_, m.execute_addPacked d s, ?_, ?_, ?_, fun c => rfl, rfl, rfl, rfl⟩, ?_⟩
  · intro i hi
    rw [hread, if_pos rfl]
    exact lane_addLanes _ _ hi
  · rw [hread, if_pos rfl]
    exact hsum
  · intro x hx
    have hne : d ≠ x := fun h => hx h.symm
    rw [hread, if_neg hne]
  · intro n hn
    rw [ofLanes_lanes, Nat.mod_eq_of_lt hn]

/-- A register added to itself: its lowest lane overflows, and the lane above gets no carry. -/
theorem packed_sum_by_lanes_doubled : ∃ m m' : Machine, m.readVector ⟨1⟩ = 0x80000000ffffffff ∧
    m.execute ⟨.paddd, [.vector ⟨1⟩, .vector ⟨1⟩]⟩ = .ok m' ∧ m'.readVector ⟨1⟩ % 2 ^ 32 = 0xfffffffe ∧
    m'.readVector ⟨1⟩ / 2 ^ 32 % 2 ^ 32 = 0 := by
  obtain ⟨m, hm⟩ : ∃ m, m = (fresh 16).writeVector ⟨1⟩ 0x80000000ffffffff := ⟨_, rfl⟩
  have hread : m.readVector ⟨1⟩ = 0x80000000ffffffff := by
    rw [hm]
    rfl
  obtain ⟨⟨m', h, hlanes, -⟩, -⟩ := m.packed_sum_by_lanes ⟨1⟩ ⟨1⟩
  have hlow := hlanes 0 (by decide)
  have hnext := hlanes 1 (by decide)
  rw [hread] at hlow hnext
  simp only [Nat.mul_zero, Nat.pow_zero, Nat.div_one] at hlow
  exact ⟨m, m', hread, h, hlow, hnext⟩

end Machine

end LongMode

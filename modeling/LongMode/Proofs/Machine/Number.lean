import LongMode.Proofs.Arith.Signed
import LongMode.Proofs.Machine.Memory

/-!
# Numbers in memory

The number that lies in a range of bytes, the lowest byte first.

* `Memory.number`: the number, which depends on the bytes of its range only (`number_congr`).
* `number_add`: a range in two parts holds the number of the lower part and, in front of it, that of the upper part.
* `Machine.readInteger_eq_ok` and `Machine.writeInteger_eq_ok`: inside memory this is the number that is read, and what
  is stored is such a number (`Machine.number_writeInteger`, `Machine.readInteger_writeInteger`).
-/

namespace LongMode

private theorem ofLittleEndian_append (front back : List UInt8) :
    ofLittleEndian (front ++ back) = ofLittleEndian front + 256 ^ front.length * ofLittleEndian back := by
  induction front with
  | nil => simp [ofLittleEndian]
  | cons b front ih =>
    have hpow : 256 ^ (front.length + 1) = 256 * 256 ^ front.length := Nat.pow_succ'
    rw [List.cons_append, ofLittleEndian, ofLittleEndian, ih, List.length_cons, hpow, Nat.mul_add, Nat.mul_assoc,
      Nat.add_assoc]

namespace Memory

variable {m m' : Memory} {a n k : Nat}

/-- The number in `n` bytes from an address on. -/
def number (m : Memory) (a n : Nat) : Nat := ofLittleEndian (m.load a n)

theorem number_lt (m : Memory) (a n : Nat) : m.number a n < 2 ^ (8 * n) := by
  have h := ofLittleEndian_lt (m.load a n)
  rw [length_load] at h
  rwa [Nat.pow_mul]

private theorem load_congr (h : ∀ b, a ≤ b → b < a + n → m'.byte b = m.byte b) : m'.load a n = m.load a n := by
  induction n generalizing a with
  | zero => rfl
  | succ n ih =>
    have hfirst : m'.byte a = m.byte a := h a (Nat.le_refl a) (by omega)
    have hrest : m'.load (a + 1) n = m.load (a + 1) n := ih fun b hl hu => h b (by omega) (by omega)
    rw [load, load, hfirst, hrest]

theorem number_congr (h : ∀ b, a ≤ b → b < a + n → m'.byte b = m.byte b) : m'.number a n = m.number a n :=
  congrArg ofLittleEndian (load_congr h)

private theorem load_add (m : Memory) (a n k : Nat) : m.load a (n + k) = m.load a n ++ m.load (a + n) k := by
  induction n generalizing a with
  | zero => rw [Nat.zero_add, load, List.nil_append, Nat.add_zero]
  | succ n ih => rw [Nat.succ_add, load, load, ih, List.cons_append, Nat.add_assoc, Nat.add_comm 1 n]

theorem number_add (m : Memory) (a n k : Nat) :
    m.number a (n + k) = m.number a n + 2 ^ (8 * n) * m.number (a + n) k := by
  rw [number, load_add, ofLittleEndian_append, length_load, Nat.pow_mul]
  rfl

theorem number_store {value : Nat} (h : a + n ≤ m.size) (hv : value < 2 ^ (8 * n)) :
    (m.store a (littleEndian n value)).number a n = value := by
  have hlength : (littleEndian n value).length = n := length_littleEndian n value
  have hend : a + (littleEndian n value).length ≤ m.size := by
    rw [hlength]
    exact h
  have hload := m.load_store hend
  rw [hlength] at hload
  rw [Nat.pow_mul] at hv
  rw [number, hload, ofLittleEndian_littleEndian, Nat.mod_eq_of_lt hv]

end Memory

namespace Machine

variable {m m' : Machine} {a n x : Nat} {value : Int}

theorem covers_natCast : m.Covers a n ↔ a + n ≤ m.capacity := by
  unfold Covers
  omega

theorem readInteger_eq_ok : m.readInteger a n = .ok x ↔ a + n ≤ m.capacity ∧ m.memory.number a n = x := by
  unfold readInteger readBytes
  rw [← covers_natCast]
  split
  · rename_i hc
    rw [map_ok, Except.ok.injEq]
    exact ⟨fun h => ⟨hc, h⟩, And.right⟩
  · rename_i hc
    exact ⟨nofun, fun h => absurd h.1 hc⟩

theorem writeInteger_eq_ok : m.writeInteger a n value = .ok m' ↔ a + n ≤ m.capacity ∧
    m' = { m with memory := m.memory.store a (littleEndian n (truncate (8 * n) value)) } := by
  unfold writeInteger
  rw [← covers_natCast]
  split
  · rename_i hc
    rw [Except.ok.injEq]
    exact ⟨fun h => ⟨hc, h.symm⟩, fun h => h.2.symm⟩
  · rename_i hc
    exact ⟨nofun, fun h => absurd h.1 hc⟩

/-- What is stored in a range is the number of the range. -/
theorem number_writeInteger (hm : m.memory.size = m.capacity) (h : m.writeInteger a n value = .ok m') :
    m'.memory.number a n = truncate (8 * n) value := by
  obtain ⟨hend, rfl⟩ := writeInteger_eq_ok.1 h
  exact Memory.number_store (by omega) (truncate_lt _ _)

/-- An integer that is stored is read back, reduced to the size of its range. -/
theorem readInteger_writeInteger (hm : m.memory.size = m.capacity) (h : m.writeInteger a n value = .ok m') :
    m'.readInteger a n = .ok (truncate (8 * n) value) := by
  obtain ⟨hend, hm'⟩ := writeInteger_eq_ok.1 h
  have hcapacity : m'.capacity = m.capacity := by rw [hm']
  exact readInteger_eq_ok.2 ⟨hcapacity ▸ hend, number_writeInteger hm h⟩

end Machine

end LongMode

import LongMode.Arith.Word

/-!
# Memory

A buffer of bytes, read and written one byte at a time; numbers lie in it with the lowest byte first.

* `byte_setByte` and `byte_store` say what every byte is after a write, `size_setByte` and `size_store` that the
  buffer keeps its length;
* `ofLittleEndian_littleEndian` says that a number below `256 ^ n` is read back from its `n` bytes.
-/

namespace LongMode

/-- The lowest `n` bytes of a number, the lowest first. -/
def littleEndian : (n : Nat) → Nat → List UInt8
  | 0, _ => []
  | n + 1, value => UInt8.ofNat value :: littleEndian n (value / 256)

/-- The number whose bytes are given, the lowest first. -/
def ofLittleEndian : List UInt8 → Nat
  | [] => 0
  | b :: rest => b.toNat + 256 * ofLittleEndian rest

@[simp] theorem length_littleEndian (n value : Nat) : (littleEndian n value).length = n := by
  induction n generalizing value with
  | zero => rfl
  | succ n ih => simp [littleEndian, ih]

theorem ofLittleEndian_littleEndian (n value : Nat) : ofLittleEndian (littleEndian n value) = value % 256 ^ n := by
  induction n generalizing value with
  | zero => simp [littleEndian, ofLittleEndian, Nat.mod_one]
  | succ n ih =>
    have h : 256 ^ (n + 1) = 256 * 256 ^ n := Nat.pow_succ'
    rw [h, Nat.mod_mul]
    simp [littleEndian, ofLittleEndian, ih]

structure Memory where
  buffer : ByteArray
  deriving DecidableEq

namespace Memory

def zeroed (size : Nat) : Memory := ⟨⟨Array.replicate size 0⟩⟩

def size (m : Memory) : Nat := m.buffer.size

/-- The byte at an address, zero outside the buffer. -/
def byte (m : Memory) (a : Nat) : UInt8 := if h : a < m.buffer.size then m.buffer[a] else 0

/-- Nothing is stored outside the buffer. -/
def setByte (m : Memory) (a : Nat) (value : UInt8) : Memory :=
  if h : a < m.buffer.size then ⟨m.buffer.set a value h⟩ else m

/-- The bytes at `n` consecutive addresses. -/
def load (m : Memory) (a : Nat) : (n : Nat) → List UInt8
  | 0 => []
  | n + 1 => m.byte a :: m.load (a + 1) n

/-- Stores bytes at consecutive addresses. -/
def store (m : Memory) (a : Nat) : List UInt8 → Memory
  | [] => m
  | b :: rest => (m.setByte a b).store (a + 1) rest

@[simp] theorem size_zeroed (n : Nat) : (zeroed n).size = n := Array.size_replicate

@[simp] theorem size_setByte (m : Memory) (a : Nat) (value : UInt8) : (m.setByte a value).size = m.size := by
  unfold setByte
  split
  · exact Array.size_set _
  · rfl

@[simp] theorem size_store (m : Memory) (a : Nat) (bs : List UInt8) : (m.store a bs).size = m.size := by
  induction bs generalizing m a with
  | nil => rfl
  | cons b rest ih => simp [store, ih]

theorem byte_eq (m : Memory) (a : Nat) : m.byte a = (m.buffer.data[a]?).getD 0 := by
  unfold byte
  split
  · rename_i h
    rw [Array.getElem?_eq_getElem (show a < m.buffer.data.size from h)]
    rfl
  · rename_i h
    rw [Array.getElem?_eq_none (Nat.le_of_not_lt h)]
    rfl

theorem byte_setByte (m : Memory) (a b : Nat) (value : UInt8) :
    (m.setByte a value).byte b = if a = b ∧ a < m.size then value else m.byte b := by
  rw [byte_eq, byte_eq]
  unfold setByte
  by_cases h : a < m.buffer.size
  · rw [dif_pos h]
    show ((m.buffer.data.set a value h)[b]?).getD 0 = _
    rw [Array.getElem?_set]
    by_cases hab : a = b
    · rw [if_pos hab, if_pos ⟨hab, h⟩]
      rfl
    · rw [if_neg hab, if_neg (fun k => hab k.1)]
  · rw [dif_neg h, if_neg (fun k => h k.2)]

theorem byte_store (m : Memory) (a b : Nat) (bs : List UInt8) (h : a + bs.length ≤ m.size) :
    (m.store a bs).byte b = if a ≤ b then (bs[b - a]?).getD (m.byte b) else m.byte b := by
  induction bs generalizing m a with
  | nil => simp [store]
  | cons c rest ih =>
    rw [List.length_cons] at h
    rw [store, ih _ _ (by rw [size_setByte]; omega), byte_setByte]
    rcases Nat.lt_trichotomy a b with hab | hab | hab
    · obtain ⟨k, rfl⟩ : ∃ k, b = a + 1 + k := ⟨b - (a + 1), by omega⟩
      have h1 : a + 1 + k - (a + 1) = k := by omega
      have h2 : a + 1 + k - a = k + 1 := by omega
      have h3 : ¬ (a = a + 1 + k ∧ a < m.size) := by omega
      rw [if_pos (Nat.le_add_right _ k), if_pos (Nat.le_of_lt hab), if_neg h3, h1, h2, List.getElem?_cons_succ]
    · subst hab
      rw [if_neg (by omega), if_pos ⟨rfl, by omega⟩, if_pos (Nat.le_refl a), Nat.sub_self, List.getElem?_cons_zero]
      rfl
    · rw [if_neg (by omega), if_neg (by omega), if_neg (by omega)]

end Memory

end LongMode

import Mathlib.Data.Int.Bitwise
import LongMode.Proofs.Arith.Signed
import LongMode.Proofs.Execution.Footprint
import LongMode.Proofs.Register.Bits
import LongMode.Proofs.Register.Name

/-!
# Registers that share a cell

What one register reads after an integer has been stored through another one, bit by bit.

* `testBit_truncate`: truncation keeps the low bits of an integer in two's complement.
* `View.testBit_read_write`: a bit of a view after a write through another view of the cell is a bit of the integer,
  clear, or what it was.
* `View.write_write`: of two writes through one view the second one counts.
* `readNamed_writeNamed`: both of them for registers that are given by name, vector registers included.
-/

namespace LongMode

theorem testBit_truncate (w : Nat) (z : Int) (k : Nat) :
    (truncate w z).testBit k = (decide (k < w) && z.testBit k) := by
  have hcast : ((2 ^ w : Nat) : Int) = 2 ^ w := by simp
  cases z with
  | ofNat n =>
    have hmod : truncate w n = n % 2 ^ w := by
      rw [truncate, ← hcast, ← Int.natCast_emod, Int.toNat_natCast]
    have hbit : (Int.ofNat n).testBit k = n.testBit k := rfl
    rw [Int.ofNat_eq_natCast, hmod, Nat.testBit_mod_two_pow]
    rfl
  | negSucc n =>
    have hlt : n % 2 ^ w < 2 ^ w := Nat.mod_lt _ (Nat.two_pow_pos w)
    -- a negative number has the complements of the bits of its predecessor's negation
    have hmod : truncate w (Int.negSucc n) = 2 ^ w - (n % 2 ^ w + 1) := by
      rw [truncate, ← hcast, Int.negSucc_emod n (by omega), ← Int.natCast_emod]
      omega
    have hbit : (Int.negSucc n).testBit k = !n.testBit k := rfl
    rw [hmod, Nat.testBit_two_pow_sub_succ hlt, Nat.testBit_mod_two_pow, hbit]
    by_cases hk : k < w <;> simp [hk]

/-! ### Two views of a cell -/

namespace View

/-- What a view of a cell reads after a write through another view of it. -/
theorem testBit_read_write (u v : View) (cell : Nat) (value : Int) (k : Nat) :
    (u.read (v.write cell value)).testBit k =
      if u.bits ≤ k then false
      else if v.Holds (u.shift + k) then value.testBit (u.shift + k - v.shift)
      else if v.width = .dword then false
      else (u.read cell).testBit k := by
  have hend := u.shift_add_bits_le
  rw [testBit_read, testBit_read, testBit_write, testBit_truncate]
  by_cases hk : u.bits ≤ k
  · have hout : ¬ k < u.bits := by omega
    rw [if_pos hk, decide_eq_false hout, Bool.false_and]
  · have hin : k < u.bits := by omega
    rw [if_neg hk, decide_eq_true hin, Bool.true_and, Bool.true_and]
    by_cases hv : v.Holds (u.shift + k)
    · obtain ⟨hlow, hhigh⟩ := hv
      have hfield : u.shift + k - v.shift < v.bits := by omega
      rw [if_pos ⟨hlow, hhigh⟩, if_pos ⟨hlow, hhigh⟩, decide_eq_true hfield, Bool.true_and]
    · have h64 : ¬ 64 ≤ u.shift + k := by omega
      have hwrites : (v.Writes (u.shift + k) ∨ 64 ≤ u.shift + k) ↔ v.width = .dword := by
        simp only [Writes, hv, h64, false_or, or_false]
      rw [if_neg hv, if_neg hv]
      exact if_congr hwrites rfl rfl

theorem write_write (v : View) (cell : Nat) (x y : Int) : v.write (v.write cell x) y = v.write cell y := by
  apply Nat.eq_of_testBit_eq
  intro k
  rw [testBit_write, testBit_write v cell y, testBit_write v cell x]
  by_cases hfield : v.Holds k
  · rw [if_pos hfield, if_pos hfield]
  · rw [if_neg hfield, if_neg hfield, if_neg hfield]
    by_cases hclear : v.Writes k ∨ 64 ≤ k
    · rw [if_pos hclear, if_pos hclear]
    · rw [if_neg hclear, if_neg hclear]

end View

/-! ### Registers by name -/

/-- What keeps the bits of registers: a cell, or a vector register on its own. -/
inductive Holder
  | cell (c : Cell)
  | vector (x : VectorRegister)
  deriving DecidableEq, Repr

namespace RegisterName

def name : RegisterName → String
  | view v => v.name
  | vector x => x.name

def holder : RegisterName → Holder
  | view v => .cell v.cell
  | vector x => .vector x

def bits : RegisterName → Nat
  | view v => v.bits
  | vector _ => VectorRegister.bits

/-- The position of the register's lowest bit in its holder. -/
def shift : RegisterName → Nat
  | view v => v.shift
  | vector _ => 0

/-- The bit of the holder belongs to the register. -/
def Holds (r : RegisterName) (k : Nat) : Prop := r.shift ≤ k ∧ k < r.shift + r.bits

instance (r : RegisterName) (k : Nat) : Decidable (r.Holds k) := inferInstanceAs (Decidable (_ ∧ _))

/-- A text is the name of the register, in any letter case. -/
def IsSpelled (r : RegisterName) (s : String) : Prop := Text.spells s.toList r.name = true

instance (r : RegisterName) (s : String) : Decidable (r.IsSpelled s) := inferInstanceAs (Decidable (_ = true))

theorem find_of_isSpelled {r : RegisterName} {s : String} (h : r.IsSpelled s) : find s = .ok r := by
  cases r with
  | view v => exact find_view (View.ofName?_eq_some.2 h)
  | vector x => exact find_vector (VectorRegister.ofName?_eq_some.2 h)

end RegisterName

namespace Machine

def readRegister (m : Machine) : RegisterName → Nat
  | .view v => m.readView v
  | .vector x => m.readVector x

def writeRegister (m : Machine) (value : Int) : RegisterName → Machine
  | .view v => m.writeView v value
  | .vector x => m.writeVector x value

variable {m : Machine} {r u : RegisterName} {s t : String}

theorem readNamed_of_isSpelled (h : r.IsSpelled s) (m : Machine) : m.readNamed s = .ok (m.readRegister r) := by
  rw [readNamed, RegisterName.find_of_isSpelled h]
  cases r <;> rfl

theorem writeNamed_of_isSpelled (h : r.IsSpelled s) (m : Machine) (value : Int) :
    m.writeNamed s value = .ok (m.writeRegister value r) := by
  rw [writeNamed, RegisterName.find_of_isSpelled h]
  cases r <;> rfl

private theorem readRegister_writeRegister_of_ne (h : r.holder ≠ u.holder) (m : Machine) (value : Int) :
    (m.writeRegister value r).readRegister u = m.readRegister u := by
  cases r with
  | view v =>
    cases u with
    | view u => exact readView_writeView_of_ne (fun hc => h (congrArg Holder.cell hc)) m value
    | vector y => rfl
  | vector x =>
    cases u with
    | view u => rfl
    | vector y =>
      have hne : x ≠ y := fun hx => h (congrArg Holder.vector hx)
      exact (m.readVector_writeVector x y value).trans (if_neg hne)

/-- The new reading of a register of the same holder, by its bits. -/
private theorem testBit_readRegister_writeRegister (h : r.holder = u.holder) (m : Machine) (value : Int) (k : Nat) :
    ((m.writeRegister value r).readRegister u).testBit k =
      if u.bits ≤ k then false
      else if r.Holds (u.shift + k) then value.testBit (u.shift + k - r.shift)
      else if r.bits = 32 then false
      else (m.readRegister u).testBit k := by
  cases r with
  | view v =>
    cases u with
    | view u =>
      have hcell : v.cell = u.cell := by simpa [RegisterName.holder] using h
      have hwidth : v.bits = 32 ↔ v.width = .dword := by
        rw [View.bits]
        cases v.width <;> decide
      have hread : (m.writeView v value).readView u = u.read (v.write (m.cell u.cell) value) := by
        rw [readView, cell_writeView, if_pos hcell]
      show ((m.writeView v value).readView u).testBit k = _
      rw [hread, View.testBit_read_write]
      exact if_congr Iff.rfl rfl (if_congr Iff.rfl rfl (if_congr hwidth.symm rfl rfl))
    | vector y => cases h
  | vector x =>
    cases u with
    | view u => cases h
    | vector y =>
      obtain rfl : x = y := by simpa [RegisterName.holder] using h
      have hread : (m.writeVector x value).readVector x = truncate VectorRegister.bits value :=
        (m.readVector_writeVector x x value).trans (if_pos rfl)
      show ((m.writeVector x value).readVector x).testBit k = _
      rw [hread, testBit_truncate]
      by_cases hk : VectorRegister.bits ≤ k
      · have hout : ¬ k < VectorRegister.bits := by omega
        rw [decide_eq_false hout, Bool.false_and]
        exact (if_pos hk).symm
      · have hin : k < VectorRegister.bits := by omega
        have hfield : (RegisterName.vector x).Holds (0 + k) :=
          ⟨Nat.zero_le _, show 0 + k < 0 + VectorRegister.bits by omega⟩
        have hposition : 0 + k - (RegisterName.vector x).shift = k := Nat.zero_add k
        rw [decide_eq_true hin, Bool.true_and]
        refine Eq.symm ((if_neg hk).trans ((if_pos hfield).trans ?_))
        exact congrArg value.testBit hposition

private theorem readRegister_writeRegister (m : Machine) (r : RegisterName) (value : Int) :
    ((m.writeRegister value r).readRegister r : Int) = value % 2 ^ r.bits := by
  rw [← natCast_truncate]
  cases r with
  | view v => exact congrArg Nat.cast (m.readView_writeView v value)
  | vector x => exact congrArg Nat.cast ((m.readVector_writeVector x x value).trans (if_pos rfl))

private theorem writeRegister_writeRegister (m : Machine) (r : RegisterName) (x y : Int) :
    (m.writeRegister x r).writeRegister y r = m.writeRegister y r := by
  have hset : ∀ (b : Bank) (i : Fin 16) (p q : Nat), (b.set i p).set i q = b.set i q := by
    intro b i p q
    ext j
    rw [Bank.get_set, Bank.get_set, Bank.get_set]
    by_cases hj : i = j <;> simp [hj]
  cases r with
  | view v =>
    have hcell : (m.writeView v x).cell v.cell = v.write (m.cell v.cell) x := by
      rw [cell_writeView, if_pos rfl]
    show (m.writeView v x).writeView v y = m.writeView v y
    rw [writeView, hcell, View.write_write, writeView, writeView, hset]
  | vector z =>
    show (m.writeVector z x).writeVector z y = m.writeVector z y
    rw [writeVector, writeVector, writeVector, hset]

/-- After an integer is stored through a register, a register of another holder reads what it read.  One of the same
holder reads the bits of the integer where the first one has its field, zeros above the field if that has 32 bits, and
what it read elsewhere.  The register itself reads the integer modulo its width, and of two integers that are stored
through it the second one counts. -/
theorem readNamed_writeNamed (hr : r.IsSpelled s) (hu : u.IsSpelled t) (m : Machine) (value : Int) :
    ∃ m' old new, m.writeNamed s value = .ok m' ∧ m.readNamed t = .ok old ∧ m'.readNamed t = .ok new ∧
      (r.holder ≠ u.holder → new = old) ∧
      (r.holder = u.holder → ∀ k, new.testBit k =
        if u.bits ≤ k then false
        else if r.Holds (u.shift + k) then value.testBit (u.shift + k - r.shift)
        else if r.bits = 32 then false
        else old.testBit k) ∧
      (r = u → (new : Int) = value % 2 ^ r.bits) ∧
      ∀ s' value', r.IsSpelled s' → m'.writeNamed s' value' = m.writeNamed s' value' := by
  refine ⟨m.writeRegister value r, m.readRegister u, (m.writeRegister value r).readRegister u,
    writeNamed_of_isSpelled hr m value, readNamed_of_isSpelled hu m, readNamed_of_isSpelled hu _, ?_, ?_, ?_, ?_⟩
  · intro h
    exact readRegister_writeRegister_of_ne h m value
  · intro h k
    exact testBit_readRegister_writeRegister h m value k
  · rintro rfl
    exact m.readRegister_writeRegister r value
  · intro s' value' hs'
    rw [writeNamed_of_isSpelled hs', writeNamed_of_isSpelled hs', writeRegister_writeRegister]

/-- All ones through the second byte of a cell are read back at bits 8 to 15 of its low half; the second write
through that byte counts. -/
theorem readNamed_writeNamed_high_byte : (RegisterName.view (.high .ah)).IsSpelled "AH" ∧
    (RegisterName.view (.low .rax .dword)).IsSpelled "eAx" ∧
    ∃ m' new, (fresh 16).writeNamed "AH" (-1) = .ok m' ∧ m'.readNamed "eAx" = .ok new ∧ new.testBit 7 = false ∧
      new.testBit 8 = true ∧ new.testBit 15 = true ∧ new.testBit 16 = false ∧
      m'.writeNamed "ah" 5 = (fresh 16).writeNamed "ah" 5 := by
  have hah : (RegisterName.view (.high .ah)).IsSpelled "AH" := by decide
  have heax : (RegisterName.view (.low .rax .dword)).IsSpelled "eAx" := by decide
  obtain ⟨m', old, new, hwrite, hold, hnew, -, hbits, -, hlast⟩ := readNamed_writeNamed hah heax (fresh 16) (-1)
  have hzero : old = 0 := by
    rw [readNamed_of_isSpelled heax] at hold
    exact (Except.ok.inj hold).symm
  subst hzero
  exact ⟨hah, heax, m', new, hwrite, hnew, hbits rfl 7, hbits rfl 8, hbits rfl 15, hbits rfl 16,
    hlast "ah" 5 (by decide)⟩

end Machine

end LongMode

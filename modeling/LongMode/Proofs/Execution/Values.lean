import LongMode.Proofs.Execution.Footprint
import LongMode.Proofs.Machine.Range

/-!
# Values of operands

What an instruction reads from an operand, said of the machine.

* `Machine.readPlace` and `Machine.readOperand`: the value of a place and of an operand, without a sign and within its
  width.
* `read_start` and `readPlace_start`: a transaction that has written nothing reads these values, and is out of bounds
  where they are.
* `ChangesOnly.readPlace_eq`: a place keeps its value where nothing that it lies in or is addressed by is changed.
-/

namespace LongMode

namespace Machine

/-- The value of a place. -/
def readPlace (m : Machine) : Place → Except OutOfBounds Nat
  | .register v => .ok (m.readView v)
  | .memory l => m.readInteger (m.effectiveAddress l.address) l.width.bytes

/-- The value of an operand. -/
def readOperand (m : Machine) : Operand → Except OutOfBounds Nat
  | .register v => .ok (m.readView v)
  | .vector x => .ok (m.readVector x)
  | .immediate z n => .ok (truncate n z)
  | .memory l => m.readInteger (m.effectiveAddress l.address) l.width.bytes

theorem readPlace_lt {m : Machine} {p : Place} {x : Nat} (h : m.readPlace p = .ok x) : x < 2 ^ p.width.bits := by
  cases p with
  | register v =>
    obtain rfl : m.readView v = x := Except.ok.inj h
    exact View.read_lt _ _
  | memory l =>
    obtain ⟨-, rfl⟩ := readInteger_eq_ok.1 h
    exact m.memory.number_lt _ _

theorem readOperand_place (m : Machine) (p : Place) : m.readOperand p.operand = m.readPlace p := by cases p <;> rfl

end Machine

/-- The cells that a place lies in or is addressed by. -/
def Place.cells : Place → List Cell
  | .register v => [v.cell]
  | .memory l => l.address.cells

namespace Machine.ChangesOnly

variable {m m' : Machine} {p : Footprint}

theorem cell_eq (h : m.ChangesOnly p m') (hm : m.valid = true) (hm' : m'.valid = true) {c : Cell}
    (hc : ∀ v ∈ p.views, v.cell ≠ c) : m'.cell c = m.cell c := by
  have hwhole : ∀ {m : Machine}, m.valid = true → m.readView (.low c .qword) = m.cell c := by
    intro m hm
    have hlt : m.cell c < 2 ^ 64 := (valid_iff.1 hm).register_lt _
    show m.cell c / 2 ^ 0 % 2 ^ 64 = m.cell c
    rw [Nat.pow_zero, Nat.div_one, Nat.mod_eq_of_lt hlt]
  have hview : m'.readView (.low c .qword) = m.readView (.low c .qword) := h.readView_eq hc
  rw [← hwhole hm, ← hwhole hm', hview]

/-- A place whose cells are not in the footprint, where no memory is. -/
theorem readPlace_eq (h : m.ChangesOnly p m') (hm : m.valid = true) (hm' : m'.valid = true)
    (hcapacity : m'.capacity = m.capacity) (hspans : p.spans = []) {d : Place}
    (hd : ∀ v ∈ p.views, v.cell ∉ d.cells) {x : Nat} (hread : m.readPlace d = .ok x) : m'.readPlace d = .ok x := by
  cases d with
  | register v =>
    have hview : m'.readView v = m.readView v := h.readView_eq fun u hu hc => hd u hu (hc ▸ List.mem_cons_self)
    rw [readPlace, hview]
    exact hread
  | memory l =>
    have haddress : m'.effectiveAddress l.address = m.effectiveAddress l.address :=
      effectiveAddress_congr fun c hc => h.cell_eq hm hm' fun v hv heq => hd v hv (heq ▸ hc)
    obtain ⟨hend, hnumber⟩ := readInteger_eq_ok.1 hread
    have hsame : m'.memory.number (m.effectiveAddress l.address) l.width.bytes =
        m.memory.number (m.effectiveAddress l.address) l.width.bytes := h.number_eq (by simp [hspans])
    rw [readPlace, haddress]
    exact readInteger_eq_ok.2 ⟨hcapacity ▸ hend, hsame.trans hnumber⟩

end Machine.ChangesOnly

namespace Transaction

variable {m : Machine}

theorem read_start (hm : m.memory.size = m.capacity) (s : Source) :
    (start m).read s = (m.readOperand s.operand).mapError .outOfBounds := by
  cases s with
  | register v | immediate z n => rfl
  | memory l => exact (start m).readLocation_result hm l

theorem readPlace_start (hm : m.memory.size = m.capacity) (p : Place) :
    (start m).readPlace p = (m.readPlace p).mapError .outOfBounds := by
  rw [readPlace, read_start hm, Place.operand_source, m.readOperand_place]

end Transaction

end LongMode

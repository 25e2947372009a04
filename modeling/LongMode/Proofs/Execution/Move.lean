import LongMode.Proofs.Execution.Choice
import LongMode.Proofs.Execution.Frame
import LongMode.Proofs.Execution.Refusal
import LongMode.Proofs.Execution.Staging
import LongMode.Proofs.Execution.Values
import LongMode.Proofs.Machine.ByteStore

/-!
# Moves between registers and memory

* `execute_store` and `execute_load`: a move to a location stores the register, and a move from it loads what is there.
* `stores_bytes`: memory is a store of bytes for direct accesses and for moves, whatever their ranges have in common,
  and an access beyond it changes nothing.
-/

namespace LongMode

namespace Machine

open Transaction

variable {m m' : Machine} {r u : View} {l : Location} {x : Nat}

private theorem operation_move {p : Place} {s : Source} (hw : p.operand.bits = s.operand.bits) :
    (Instruction.mk .mov [p.operand, s.operand]).operation = .ok (.move p s) := by
  have hpair : Operation.requirePair p.operand s.operand = .ok (p, s) :=
    Operation.requirePair_eq_ok.2 ⟨rfl, rfl, hw⟩
  show Operation.ofPair .move p.operand s.operand = _
  rw [Operation.ofPair, hpair]
  rfl

theorem execute_store (hw : r.width = l.width)
    (hstore : m.writeInteger (m.effectiveAddress l.address) l.width.bytes (m.readView r) = .ok m') :
    m.execute ⟨.mov, [.memory l, .register r]⟩ = .ok m'.advance := by
  have hop : (Instruction.mk .mov [.memory l, .register r]).operation = .ok (.move (.memory l) (.register r)) :=
    operation_move (p := .memory l) (s := .register r) (congrArg Width.bits hw.symm)
  have hwrite := (start m).map_result_writeLocation l (m.readView r)
  rw [result_start, hstore, mapError_ok] at hwrite
  rw [execute_of_operation rfl hop]
  show ((((start m).writeLocation l (m.readView r)).map result).mapError _).map advance = _
  rw [hwrite]
  rfl

theorem execute_load (hm : m.memory.size = m.capacity) (hw : u.width = l.width)
    (hread : m.readPlace (.memory l) = .ok x) :
    m.execute ⟨.mov, [.register u, .memory l]⟩ = .ok (m.writeView u x).advance := by
  have hop : (Instruction.mk .mov [.register u, .memory l]).operation = .ok (.move (.register u) (.memory l)) :=
    operation_move (p := .register u) (s := .memory l) (congrArg Width.bits hw)
  have hstart : (start m).read (.memory l) = .ok x := by
    rw [read_start hm]
    exact congrArg (Except.mapError Stop.outOfBounds) hread
  have hrun : (Operation.move (.register u) (.memory l)).run (start m) = .ok ((start m).writeView u x) := by
    rw [Operation.run, hstart, ok_bind]
    rfl
  rw [execute_of_run rfl hop hrun, result_writeView, result_start]

/-- A move to memory and a move from memory, each of any width and at any address. -/
theorem readView_store_load (hm : m.valid = true) (hr : r.width = l.width)
    (hl : m.Covers (m.effectiveAddress l.address) l.width.bytes) :
    ∃ m₁, m.execute ⟨.mov, [.memory l, .register r]⟩ = .ok m₁ ∧ ∀ (l' : Location) (u : View), u.width = l'.width →
      m.Covers (m.effectiveAddress l'.address) l'.width.bytes →
      ∃ m₂, m₁.execute ⟨.mov, [.register u, .memory l']⟩ = .ok m₂ ∧ m₂.readView u = m.memory.numberAfter
        (m.effectiveAddress l.address) l.width.bytes (m.readView r) (m.effectiveAddress l'.address) l'.width.bytes := by
  obtain ⟨m₁, hstore, hstored⟩ := hasStored_writeInteger (valid_iff.1 hm).size_eq hl (m.readView r)
  have hexecute := execute_store hr hstore
  have hvalid : m₁.advance.valid = true := (valid_execute hm hexecute).1
  refine ⟨m₁.advance, hexecute, ?_⟩
  intro l' u hu hl'
  have haddress : m₁.advance.effectiveAddress l'.address = m.effectiveAddress l'.address := by
    rw [hstored.eq]
    rfl
  have hread : m₁.advance.readPlace (.memory l') = .ok (m.memory.numberAfter (m.effectiveAddress l.address)
      l.width.bytes (m.readView r) (m.effectiveAddress l'.address) l'.width.bytes) := by
    rw [readPlace, haddress]
    exact hstored.readInteger_eq _ _ hl'
  have hlt := readPlace_lt hread
  refine ⟨_, execute_load (valid_iff.1 hvalid).size_eq hu hread, ?_⟩
  show (m₁.advance.writeView u _).readView u = _
  rw [readView_writeView, View.bits, hu]
  exact truncate_of_lt hlt

/-- A range inside memory is stored byte by byte and read back through any other range, directly or by moves; a store
beyond memory is refused and leaves the machine as it is; and no store changes the length of memory. -/
theorem memory_stores_bytes (hm : m.valid = true) :
    (∀ (a : Int) (n : Nat) (value : Int), m.Covers a n → ∃ m', m.writeInteger a n value = .ok m' ∧
      m.HasStored a.toNat n value m' ∧ m'.readInteger a n = .ok (value % 2 ^ (8 * n)).toNat) ∧
    (∀ (a : Int) (n : Nat) (value : Int), ¬ m.Covers a n →
      m.perform (.writeMemory a n value) = (.error (.outOfBounds ⟨a, n, m.capacity⟩), m)) ∧
    (∀ (a : Int) (n : Nat) (value : Int), (m.perform (.writeMemory a n value)).2.memory.size = m.memory.size) ∧
    ∀ (l : Location) (r : View), r.width = l.width → m.Covers (m.effectiveAddress l.address) l.width.bytes →
      ∃ m₁, m.execute ⟨.mov, [.memory l, .register r]⟩ = .ok m₁ ∧ ∀ (l' : Location) (u : View), u.width = l'.width →
        m.Covers (m.effectiveAddress l'.address) l'.width.bytes →
        ∃ m₂, m₁.execute ⟨.mov, [.register u, .memory l']⟩ = .ok m₂ ∧
          m₂.readView u = m.memory.numberAfter (m.effectiveAddress l.address) l.width.bytes (m.readView r)
            (m.effectiveAddress l'.address) l'.width.bytes := by
  have hsize := (valid_iff.1 hm).size_eq
  have hrefused : ∀ (a : Int) (n : Nat) (value : Int), ¬ m.Covers a n →
      m.perform (.writeMemory a n value) = (.error (.outOfBounds ⟨a, n, m.capacity⟩), m) := by
    intro a n value ha
    rw [perform, writeInteger, if_neg ha]
    rfl
  refine ⟨?_, hrefused, ?_, fun l r hr hl => readView_store_load hm hr hl⟩
  · intro a n value ha
    obtain ⟨m', hstore, hstored⟩ := hasStored_writeInteger hsize ha value
    obtain ⟨a, rfl⟩ := Int.eq_ofNat_of_zero_le ha.1
    exact ⟨m', hstore, hstored, readInteger_writeInteger hsize hstore⟩
  · intro a n value
    by_cases ha : m.Covers a n
    · obtain ⟨m', hstore, hstored⟩ := hasStored_writeInteger hsize ha value
      rw [perform, hstore]
      exact hstored.size_eq
    · rw [hrefused a n value ha]

/-- The stack pointer stored across two words that are read, and a range that ends behind memory. -/
theorem memory_stores_bytes_overlapping : (fresh 16).valid = true ∧
    (∃ m', (fresh 16).writeInteger 12 4 (-2) = .ok m' ∧ m'.readInteger 10 4 = .ok 0xFFFE0000) ∧
    (fresh 16).perform (.writeMemory 13 4 1) = (.error (.outOfBounds ⟨13, 4, 16⟩), fresh 16) ∧
    ∃ m₁ m₂, (fresh 16).execute ⟨.mov, [.memory ⟨⟨none, none, .one, 5⟩, .qword⟩, .register (.low .rsp .qword)]⟩ =
        .ok m₁ ∧
      m₁.execute ⟨.mov, [.register (.high .ah), .memory ⟨⟨none, none, .one, 5⟩, .byte⟩]⟩ = .ok m₂ ∧
      m₂.readView (.high .ah) = 16 := by
  have hvalid : (fresh 16).valid = true := by decide
  obtain ⟨hstore, hrefused, -, hmove⟩ := memory_stores_bytes hvalid
  refine ⟨hvalid, ?_, hrefused 13 4 1 (by decide), ?_⟩
  · obtain ⟨m', hm', hstored, -⟩ := hstore 12 4 (-2) (by decide)
    exact ⟨m', hm', hstored.readInteger_eq 10 4 (by decide)⟩
  · obtain ⟨m₁, hm₁, hload⟩ :=
      hmove ⟨⟨none, none, .one, 5⟩, .qword⟩ (.low .rsp .qword) rfl (by decide)
    obtain ⟨m₂, hm₂, hview⟩ := hload ⟨⟨none, none, .one, 5⟩, .byte⟩ (.high .ah) rfl (by decide)
    exact ⟨m₁, m₂, hm₁, hm₂, hview.trans (by decide)⟩

end Machine

end LongMode

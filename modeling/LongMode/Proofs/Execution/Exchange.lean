import LongMode.Proofs.Execution.Frame
import LongMode.Proofs.Execution.Values
import LongMode.Proofs.MachineCode.Decode.Canonical

/-!
# Exchanges with memory

An exchange of a register with a location in memory has two spellings and one encoding.

* `Machine.Swaps`: the register and the location have changed values, and nothing else has changed.
* `execute_exchange_location`: with the location in front, memory is written first.
* `execute_exchange_view`: with the register in front, the register is written first, and the location is then
  addressed with the new value of the register.
* `exchange_swaps`: so the first spelling always swaps, and the second does where the write to the register leaves the
  address alone.
-/

namespace LongMode

open Transaction

/-- A view and a location have changed values, and everything else has stayed. -/
structure Machine.Swaps (m : Machine) (v : View) (l : Location) (m' : Machine) : Prop where
  readView_eq : m.readInteger (m.effectiveAddress l.address) l.width.bytes = .ok (m'.readView v)
  readInteger_eq : m'.readInteger (m.effectiveAddress l.address) l.width.bytes = .ok (m.readView v)
  changesOnly : m.ChangesOnly { views := [v], spans := [l.span m] } m'
  rip_eq : m'.rip = (m.rip + 1) % 2 ^ 64
  capacity_eq : m'.capacity = m.capacity
  valid : m'.valid = true

/-! ### Encodings -/

namespace MachineCode

theorem encodeExchange_comm {v : View} {l : Location} (hw : v.width = l.width) :
    encodeExchange (.memory l) (.register v) = encodeExchange (.register v) (.memory l) := by
  have hstore : requirePair (.memory l) (.register v) = .ok (.store (.memory l) v) :=
    requirePair_eq_ok.2 ⟨rfl, rfl, hw.symm⟩
  have hload : requirePair (.register v) (.memory l) = .ok (.load v l) := requirePair_eq_ok.2 ⟨rfl, rfl, hw⟩
  simp only [encodeExchange, hstore, hload, requirePlace, ok_bind, hw]

end MachineCode

/-- Both spellings have the same bytes, or none. -/
theorem Instruction.encode_exchange_comm {v : View} {l : Location} (hw : v.width = l.width) (bytes : List UInt8) :
    (Instruction.mk .xchg [.memory l, .register v]).encode = .ok bytes ↔
      (Instruction.mk .xchg [.register v, .memory l]).encode = .ok bytes := by
  have hcode : ∀ c, (Instruction.mk .xchg [.memory l, .register v]).code = .ok c ↔
      (Instruction.mk .xchg [.register v, .memory l]).code = .ok c := by
    intro c
    rw [code_eq_ok, code_eq_ok]
    refine and_congr_right' ?_
    show MachineCode.encodeExchange (.memory l) (.register v) = .ok c ↔
      MachineCode.encodeExchange (.register v) (.memory l) = .ok c
    rw [MachineCode.encodeExchange_comm hw]
  simp only [encode, map_eq_ok, hcode]

/-! ### Execution -/

namespace Machine

variable {m : Machine} {v : View} {l : Location} {x : Nat}

private theorem operation_exchange {p q : Place} (hw : p.width = q.width) :
    (Instruction.mk .xchg [p.operand, q.operand]).operation = .ok (.exchange p q) := by
  have hq : Operation.requirePlace q.operand = .ok q := Operation.requirePlace_eq_ok.2 rfl
  have hp : Operation.requirePlace p.operand = .ok p := Operation.requirePlace_eq_ok.2 rfl
  have hsame : Operation.requireSameWidth p.operand q.operand = .ok () := by
    rw [Operation.requireSameWidth_eq_ok, Place.bits_operand, Place.bits_operand, hw]
  show Operation.ofExchange p.operand q.operand = _
  rw [Operation.ofExchange, hq, hp, hsame]
  rfl

theorem execute_exchange_location (hw : v.width = l.width) (hm : m.memory.size = m.capacity)
    (hread : m.readPlace (.memory l) = .ok x) :
    m.execute ⟨.xchg, [.memory l, .register v]⟩ =
      ((m.writeInteger (m.effectiveAddress l.address) l.width.bytes (m.readView v)).mapError .outOfBounds).map
        fun stored => (stored.writeView v x).advance := by
  have hop : (Instruction.mk .xchg [.memory l, .register v]).operation =
      .ok (.exchange (.memory l) (.register v)) := operation_exchange (p := .memory l) (q := .register v) hw.symm
  have hstore := (start m).map_result_writeLocation l (m.readView v)
  have hrun : ((Operation.exchange (.memory l) (.register v)).run (start m)).map result =
      (((start m).writeLocation l (m.readView v)).map result).map (·.writeView v x) := by
    rw [Operation.run, readPlace_start hm, hread, mapError_ok, ok_bind]
    show ((start m).writeLocation l (m.readView v) >>= fun t => .ok (t.writeView v x)).map result = _
    cases (start m).writeLocation l (m.readView v) with
    | error e => rfl
    | ok t => exact congrArg Except.ok (t.result_writeView v x)
  rw [execute_of_operation rfl hop, hrun, hstore, result_start]
  cases m.writeInteger (m.effectiveAddress l.address) l.width.bytes (m.readView v) <;> rfl

theorem execute_exchange_view (hw : v.width = l.width) (hm : m.memory.size = m.capacity)
    (hread : m.readPlace (.memory l) = .ok x) :
    m.execute ⟨.xchg, [.register v, .memory l]⟩ =
      (((m.writeView v x).writeInteger ((m.writeView v x).effectiveAddress l.address) l.width.bytes
        (m.readView v)).mapError .outOfBounds).map advance := by
  have hop : (Instruction.mk .xchg [.register v, .memory l]).operation =
      .ok (.exchange (.register v) (.memory l)) := operation_exchange (p := .register v) (q := .memory l) hw
  -- the register is written already when the location is addressed
  have hafter : ((start m).writeView v x).result = m.writeView v x := (start m).result_writeView v x
  have hstore := ((start m).writeView v x).map_result_writeLocation l (m.readView v)
  have hrun : (Operation.exchange (.register v) (.memory l)).run (start m) =
      ((start m).writeView v x).writeLocation l (m.readView v) := by
    rw [Operation.run, readPlace_start hm (.memory l), hread]
    rfl
  rw [hafter] at hstore
  rw [execute_of_operation rfl hop, hrun, hstore]
  cases (m.writeView v x).writeInteger ((m.writeView v x).effectiveAddress l.address) l.width.bytes (m.readView v) <;>
    rfl

/-- An address that does not go through a cell is the same after a write to the cell. -/
private theorem effectiveAddress_writeView {a : Address} (hbase : a.base ≠ some v.cell)
    (hindex : a.index ≠ some v.cell) (m : Machine) (value : Int) :
    (m.writeView v value).effectiveAddress a = m.effectiveAddress a := by
  refine effectiveAddress_congr fun c hc => ?_
  have hne : v.cell ≠ c := by
    rintro rfl
    rcases List.mem_append.1 hc with h | h
    · exact hbase (Option.mem_toList.1 h)
    · exact hindex (Option.mem_toList.1 h)
  rw [cell_writeView, if_neg hne]

/-- Once memory and the register are written, they have changed values. -/
private theorem swaps_of_writes (hw : v.width = l.width) (hm : m.valid = true)
    (hread : m.readInteger (m.effectiveAddress l.address) l.width.bytes = .ok x) {stored : Machine}
    (hstored : m.writeInteger (m.effectiveAddress l.address) l.width.bytes (m.readView v) = .ok stored)
    (h : m.execute ⟨.xchg, [.memory l, .register v]⟩ = .ok (stored.writeView v x).advance) :
    m.Swaps v l (stored.writeView v x).advance where
  readView_eq := by
    have hplace : m.readPlace (.memory l) = .ok x := hread
    have hx : x < 2 ^ v.bits := by
      rw [View.bits, hw]
      exact readPlace_lt hplace
    show _ = Except.ok ((stored.writeView v x).readView v)
    rw [readView_writeView, truncate_of_lt hx, hread]
  readInteger_eq := by
    have hlt : m.readView v < 2 ^ (8 * l.width.bytes) := by
      have hview := v.read_lt (m.cell v.cell)
      rwa [View.bits, hw] at hview
    have hback := readInteger_writeInteger ((valid_iff.1 hm).size_eq) hstored
    rw [truncate_of_lt hlt] at hback
    exact hback
  changesOnly := changesOnly_execute (fun o l' heq => by cases heq.2) h
  rip_eq := rip_execute h
  capacity_eq := (valid_execute hm h).2
  valid := (valid_execute hm h).1

/-- An exchange swaps if the location stands in front.  If the register does, the location is addressed with the value
that the register has received. -/
theorem exchange_swaps (hm : m.valid = true) (hw : v.width = l.width)
    (hc : m.Covers (m.effectiveAddress l.address) l.width.bytes) :
    ∃ m', m.execute ⟨.xchg, [.memory l, .register v]⟩ = .ok m' ∧ m.Swaps v l m' ∧
      (∀ bytes, (Instruction.mk .xchg [.memory l, .register v]).encode = .ok bytes ↔
        (Instruction.mk .xchg [.register v, .memory l]).encode = .ok bytes) ∧
      m.execute ⟨.xchg, [.register v, .memory l]⟩ =
        (((m.writeView v (m'.readView v)).writeInteger
          ((m.writeView v (m'.readView v)).effectiveAddress l.address) l.width.bytes
          (m.readView v)).mapError .outOfBounds).map advance ∧
      ((m.writeView v (m'.readView v)).effectiveAddress l.address = m.effectiveAddress l.address →
        m.execute ⟨.xchg, [.register v, .memory l]⟩ = .ok m') ∧
      (l.address.base ≠ some v.cell → l.address.index ≠ some v.cell →
        m.execute ⟨.xchg, [.register v, .memory l]⟩ = .ok m') := by
  have hsize := (valid_iff.1 hm).size_eq
  obtain ⟨x, hread⟩ : ∃ x, m.readInteger (m.effectiveAddress l.address) l.width.bytes = .ok x := by
    rw [readInteger, readBytes, if_pos hc]
    exact ⟨_, rfl⟩
  obtain ⟨stored, hstored⟩ :
      ∃ stored, m.writeInteger (m.effectiveAddress l.address) l.width.bytes (m.readView v) = .ok stored := by
    rw [writeInteger, if_pos hc]
    exact ⟨_, rfl⟩
  have hlocation : m.execute ⟨.xchg, [.memory l, .register v]⟩ = .ok (stored.writeView v x).advance := by
    rw [execute_exchange_location hw hsize hread, hstored]
    rfl
  have hswaps := swaps_of_writes hw hm hread hstored hlocation
  have hx : (stored.writeView v x).advance.readView v = x := Except.ok.inj (hswaps.readView_eq.symm.trans hread)
  have hview := execute_exchange_view hw hsize hread
  -- where the address is the same, both writes come to the same in either order
  have hsame : (m.writeView v x).effectiveAddress l.address = m.effectiveAddress l.address →
      m.execute ⟨.xchg, [.register v, .memory l]⟩ = .ok (stored.writeView v x).advance := by
    intro haddress
    have hcovers : (m.writeView v x).Covers (m.effectiveAddress l.address) l.width.bytes := hc
    rw [writeInteger, if_pos hc] at hstored
    rw [hview, haddress, writeInteger, if_pos hcovers, ← Except.ok.inj hstored]
    rfl
  refine ⟨_, hlocation, hswaps, Instruction.encode_exchange_comm hw, ?_⟩
  rw [hx]
  exact ⟨hview, hsame, fun hbase hindex => hsame (effectiveAddress_writeView hbase hindex m x)⟩

/-- With the location in front, a register that it is addressed by is exchanged with what it pointed to. -/
theorem exchange_swaps_own_address : ((fresh 16).writeView (.low .rax .qword) 8).valid = true ∧
    ∃ m', ((fresh 16).writeView (.low .rax .qword) 8).execute
        ⟨.xchg, [.memory ⟨⟨some .rax, none, .one, 0⟩, .qword⟩, .register (.low .rax .qword)]⟩ = .ok m' ∧
      ((fresh 16).writeView (.low .rax .qword) 8).Swaps (.low .rax .qword) ⟨⟨some .rax, none, .one, 0⟩, .qword⟩ m' := by
  have hm : ((fresh 16).writeView (.low .rax .qword) 8).valid = true := by decide
  obtain ⟨m', h, hswaps, -⟩ := exchange_swaps (v := .low .rax .qword)
    (l := ⟨⟨some .rax, none, .one, 0⟩, .qword⟩) hm rfl (by decide)
  exact ⟨hm, m', h, hswaps⟩

/-- With the register in front it is not: its value is stored at the new address. -/
theorem not_swaps_own_address : ((fresh 16).writeView (.low .rax .qword) 8).valid = true ∧
    Assembly.parse "xchg rax, [rax]".toList =
      .ok ⟨.xchg, [.register (.low .rax .qword), .memory ⟨⟨some .rax, none, .one, 0⟩, .qword⟩]⟩ ∧
    ∃ m', ((fresh 16).writeView (.low .rax .qword) 8).execute
        ⟨.xchg, [.register (.low .rax .qword), .memory ⟨⟨some .rax, none, .one, 0⟩, .qword⟩]⟩ = .ok m' ∧
      m'.readInteger 0 8 = .ok 8 ∧ m'.readInteger 8 8 = .ok 0 ∧
      ¬ ((fresh 16).writeView (.low .rax .qword) 8).Swaps (.low .rax .qword) ⟨⟨some .rax, none, .one, 0⟩, .qword⟩ m' := by
  obtain ⟨m', h, hlow, hhigh⟩ : ∃ m', ((fresh 16).writeView (.low .rax .qword) 8).execute
        ⟨.xchg, [.register (.low .rax .qword), .memory ⟨⟨some .rax, none, .one, 0⟩, .qword⟩]⟩ = .ok m' ∧
      m'.readInteger 0 8 = .ok 8 ∧ m'.readInteger 8 8 = .ok 0 := ⟨_, by rfl, by rfl, by rfl⟩
  refine ⟨by decide, rfl, m', h, hlow, hhigh, fun hswaps => ?_⟩
  have hback : m'.readInteger 8 8 = .ok 8 := hswaps.readInteger_eq
  rw [hhigh] at hback
  cases hback

end Machine

end LongMode

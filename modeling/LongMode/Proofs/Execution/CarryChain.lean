import LongMode.Proofs.Arith.Chain
import LongMode.Proofs.Execution.Sequence
import LongMode.Proofs.Execution.Values

/-!
# Long sums and differences

A long number in memory is added to, or subtracted from, one word at a time: an addition without a carry comes first
and additions with one follow, or subtractions in the same way.

* `Chain.program`: these instructions, with one constant for each word from an address on.
* `execute_link`: what one of them stores, and which flags it leaves.
* `Machine.Combines`: a range holds its total with a number, reduced to the range; carry tells what does not fit, and
  nothing else has changed.  Two ranges side by side are combined one after the other (`Combines.trans`).
* `exists_executeAll_program`: so the instructions combine the range of all words, by induction on the constants.
-/

namespace LongMode

/-- A location at a fixed address. -/
def Location.absolute (w : Width) (a : Nat) : Location := ⟨⟨none, none, .one, a⟩, w⟩

namespace Chain

/-- The mnemonics, without and with what is carried in. -/
def mnemonic : Chain → Bool → Mnemonic
  | sum, false => .add
  | sum, true => .adc
  | difference, false => .sub
  | difference, true => .sbb

def operation : Chain → Bool → Place → Source → Operation
  | sum => .add
  | difference => .subtract

/-- One constant at one address. -/
def link (k : Chain) (w : Width) (carried : Bool) (a : Nat) (z : Int) : Instruction :=
  ⟨k.mnemonic carried, [.memory (.absolute w a), .immediate z w.bits]⟩

/-- Constants at consecutive addresses, each with what the one before it carries. -/
def program (k : Chain) (w : Width) (carried : Bool) (a : Nat) : List Int → List Instruction
  | [] => []
  | z :: rest => k.link w carried a z :: k.program w true (a + w.bytes) rest

/-- The number whose words are the constants, each reduced to the width, the lowest first. -/
def constant (w : Width) : List Int → Nat
  | [] => 0
  | z :: rest => truncate w.bits z + 2 ^ w.bits * constant w rest

end Chain

namespace Machine

open Transaction

variable {m m₁ m₂ : Machine} {k : Chain} {w : Width} {carried : Bool} {a : Nat} {z : Int}

/-! ### One constant -/

private theorem operation_link : (k.link w carried a z).operation =
    .ok (k.operation carried (.memory (.absolute w a)) (.immediate z w.bits)) := by
  cases k <;> cases carried <;> cases w <;> rfl

private theorem check_link (hz : fits w.bits z = true) : (k.link w carried a z).check = .ok () := by
  have hfits : ImmediatesFit (k.link w carried a z).operands := by
    intro z' n hmem
    rcases List.mem_cons.1 hmem with hmem | hmem
    · cases hmem
    · cases List.mem_singleton.1 hmem
      exact hz
  rw [Instruction.check_eq_ok]
  refine ⟨?_, nofun, Nat.le_refl 1, hfits⟩
  cases k <;> cases carried <;> exact List.mem_singleton.2 rfl

private theorem run_operation (t : Transaction) (d : Place) (s : Source) :
    (k.operation carried d s).run t = t.readPlace d >>= fun x => t.read s >>= fun y =>
      t.finish d (k.combine d.width.bits x y (carried && t.flag .carry).toNat) := by
  cases k <;> rfl

private theorem effectiveAddress_absolute (m : Machine) (ha : a < 2 ^ 64) :
    m.effectiveAddress (Location.absolute w a).address = a := by
  show truncate 64 ((a : Int) + 0 + 0) = a
  rw [Int.add_zero, Int.add_zero]
  exact truncate_of_lt ha

/-- The constant is combined with what its address holds, and the result is stored there. -/
theorem execute_link (hm : m.memory.size = m.capacity) (hz : fits w.bits z = true) (ha : a < 2 ^ 64)
    (hend : a + w.bytes ≤ m.capacity) {r : Flagged}
    (hr : k.combine w.bits (m.memory.number a w.bytes) (truncate w.bits z) (carried && m.flags.carry).toNat = r) :
    ∃ stored, m.writeInteger a w.bytes r.value = .ok stored ∧
      m.execute (k.link w carried a z) = .ok { stored with flags := r.flags.apply stored.flags }.advance := by
  have haddress : m.effectiveAddress (Location.absolute w a).address = a := m.effectiveAddress_absolute ha
  have hread : m.readPlace (.memory (.absolute w a)) = .ok (m.memory.number a w.bytes) := by
    rw [readPlace, haddress]
    exact readInteger_eq_ok.2 ⟨hend, rfl⟩
  obtain ⟨stored, hstored⟩ : ∃ stored, m.writeInteger a w.bytes r.value = .ok stored :=
    ⟨_, writeInteger_eq_ok.2 ⟨hend, rfl⟩⟩
  have hwrite := (start m).map_result_writeLocation (.absolute w a) r.value
  rw [result_start, haddress] at hwrite
  obtain ⟨t, ht, rfl⟩ := map_eq_ok.1 (hwrite.trans (congrArg _ hstored))
  have hrun : (k.operation carried (.memory (.absolute w a)) (.immediate z w.bits)).run (start m) =
      .ok (t.setFlags r.flags) := by
    rw [run_operation, readPlace_start hm, hread, mapError_ok, ok_bind, Transaction.read, ok_bind]
    show (start m).finish (.memory (.absolute w a))
      (k.combine w.bits _ _ (carried && m.flags.carry).toNat) = _
    rw [hr, finish, write, ht]
    rfl
  refine ⟨t.result, hstored, ?_⟩
  rw [execute_of_run (check_link hz) operation_link hrun, result_setFlags]

/-! ### A range -/

/-- The range of `n` bytes at `a` holds the total of what it held with `y` and what is carried in; carry tells whether
that leaves the range, and nothing else has changed. -/
structure Combines (m : Machine) (k : Chain) (a n y c : Nat) (m' : Machine) : Prop where
  number_eq : m'.memory.number a n = truncate (8 * n) (k.total (m.memory.number a n) y c)
  carry_eq : m'.flags.carry = k.carries (8 * n) (m.memory.number a n) y c
  changesOnly : m.ChangesOnly { flags := Flag.all, spans := [⟨a, n⟩] } m'
  valid : m'.valid = true
  capacity_eq : m'.capacity = m.capacity

theorem combines_link (k : Chain) (carried : Bool) (hm : m.valid = true) (hz : fits w.bits z = true) (ha : a < 2 ^ 64)
    (hend : a + w.bytes ≤ m.capacity) : ∃ m', m.execute (k.link w carried a z) = .ok m' ∧
      m.Combines k a w.bytes (truncate w.bits z) (carried && m.flags.carry).toNat m' := by
  have hsize := (valid_iff.1 hm).size_eq
  obtain ⟨r, hr⟩ : ∃ r, k.combine w.bits (m.memory.number a w.bytes) (truncate w.bits z)
      (carried && m.flags.carry).toNat = r := ⟨_, rfl⟩
  obtain ⟨stored, hstored, hexecute⟩ := execute_link hsize hz ha hend hr
  have hvalue : r.value = truncate (8 * w.bytes) (k.total (m.memory.number a w.bytes) (truncate w.bits z)
      (carried && m.flags.carry).toNat) := by
    rw [← hr, Chain.value_combine]
    rfl
  have hcarry : r.flags.carry = some (k.carries (8 * w.bytes) (m.memory.number a w.bytes) (truncate w.bits z)
      (carried && m.flags.carry).toNat) := by
    rw [← hr]
    exact k.carry_combine (m.memory.number_lt a w.bytes)
  have hframe := changesOnly_execute (fun o l h => by cases k <;> cases carried <;> cases h.1) hexecute
  have haddress : (Location.absolute w a).span m = ⟨a, w.bytes⟩ := by
    rw [Location.span, effectiveAddress_absolute m ha]
    rfl
  have hfootprint : (k.link w carried a z).footprint m = { flags := Flag.all, spans := [⟨a, w.bytes⟩] } := by
    rw [← haddress]
    cases k <;> cases carried <;> rfl
  rw [hfootprint] at hframe
  obtain ⟨hvalid, hcapacity⟩ := valid_execute hm hexecute
  refine ⟨_, hexecute, ?_, ?_, hframe, hvalid, hcapacity⟩
  · have hlt : r.value < 2 ^ (8 * w.bytes) := by
      rw [hvalue]
      exact truncate_lt _ _
    show stored.memory.number a w.bytes = _
    rw [number_writeInteger hsize hstored, truncate_of_lt hlt, hvalue]
  · show r.flags.carry.getD stored.flags.carry = _
    rw [hcarry, Option.getD_some]

/-- The upper of two ranges side by side is combined with what the lower one carries. -/
theorem Combines.trans {n₁ n₂ y₁ y₂ c : Nat} (h₁ : m.Combines k a n₁ y₁ c m₁)
    (h₂ : m₁.Combines k (a + n₁) n₂ y₂ m₁.flags.carry.toNat m₂) (hy : y₁ < 2 ^ (8 * n₁)) (hc : c ≤ 1) :
    m.Combines k a (n₁ + n₂) (y₁ + 2 ^ (8 * n₁) * y₂) c m₂ := by
  -- each step leaves the other range alone
  have hlower : m₂.memory.number a n₁ = m₁.memory.number a n₁ := by
    refine h₂.changesOnly.number_eq fun s hs => Or.inr ?_
    rw [List.mem_singleton.1 hs]
  have hupper : m₁.memory.number (a + n₁) n₂ = m.memory.number (a + n₁) n₂ := by
    refine h₁.changesOnly.number_eq fun s hs => Or.inl ?_
    rw [List.mem_singleton.1 hs]
  have hx := m.memory.number_lt a n₁
  have hcarry := h₁.carry_eq
  have hbits : 8 * (n₁ + n₂) = 8 * n₁ + 8 * n₂ := Nat.mul_add 8 n₁ n₂
  refine ⟨?_, ?_, ?_, h₂.valid, h₂.capacity_eq.trans h₁.capacity_eq⟩
  · rw [Memory.number_add, Memory.number_add, hbits, k.truncate_total_parts hx hy hc, hlower, h₁.number_eq,
      h₂.number_eq, hupper, hcarry]
  · rw [Memory.number_add, hbits, k.carries_parts hx hy hc, h₂.carry_eq, hupper, hcarry]
  · have hfirst : (Span.mk a n₁).Within ⟨a, n₁ + n₂⟩ := ⟨Nat.le_refl a, by dsimp only; omega⟩
    have hsecond : (Span.mk (a + n₁) n₂).Within ⟨a, n₁ + n₂⟩ := ⟨Nat.le_add_right a n₁, by dsimp only; omega⟩
    exact (h₁.changesOnly.widen (p := { flags := Flag.all }) hfirst).trans
      (h₂.changesOnly.widen (p := { flags := Flag.all }) hsecond)

/-- A range without bytes passes on what is carried into it. -/
theorem Combines.empty (hm : m.valid = true) : m.Combines k a 0 0 m.flags.carry.toNat m := by
  have hnumber : m.memory.number a 0 = 0 := rfl
  refine ⟨?_, ?_, .refl m _, hm, rfl⟩
  · have hlt := truncate_lt (8 * 0) (k.total (m.memory.number a 0) 0 m.flags.carry.toNat)
    omega
  · rw [hnumber]
    cases k <;> cases m.flags.carry <;> rfl

/-- Without a constant nothing is carried, so one constant at least is asked for where no carry comes in. -/
theorem exists_executeAll_program (k : Chain) (w : Width) (carried : Bool) {zs : List Int}
    (hzs : ∀ z ∈ zs, fits w.bits z = true) (hcarried : carried = true ∨ zs ≠ []) (hm : m.valid = true)
    (haddress : a + zs.length * w.bytes ≤ 2 ^ 64) (hend : a + zs.length * w.bytes ≤ m.capacity) :
    ∃ m', m.executeAll (k.program w carried a zs) = .ok m' ∧
      m.Combines k a (zs.length * w.bytes) (Chain.constant w zs) (carried && m.flags.carry).toNat m' := by
  induction zs generalizing m carried a with
  | nil =>
    obtain rfl : carried = true := by simpa using hcarried
    have hempty : m.Combines k a 0 0 m.flags.carry.toNat m := .empty hm
    rw [List.length_nil, Nat.zero_mul, Bool.true_and]
    exact ⟨m, rfl, hempty⟩
  | cons z zs ih =>
    have hlength : (z :: zs).length * w.bytes = w.bytes + zs.length * w.bytes := by
      rw [List.length_cons, Nat.succ_mul, Nat.add_comm]
    have hbytes : 0 < w.bytes := by cases w <;> decide
    rw [hlength] at haddress hend ⊢
    obtain ⟨m₁, hfirst, hcombines⟩ := combines_link k carried hm (hzs z List.mem_cons_self)
      (show a < 2 ^ 64 by omega) (by omega)
    -- whatever the first one does, those after it take up its carry
    obtain ⟨m', hrest, hothers⟩ := ih true (fun z hz => hzs z (List.mem_cons_of_mem _ hz)) (Or.inl rfl)
      hcombines.valid (show a + w.bytes + zs.length * w.bytes ≤ 2 ^ 64 by omega)
      (show a + w.bytes + zs.length * w.bytes ≤ m₁.capacity by rw [hcombines.capacity_eq]; omega)
    rw [Chain.program, executeAll_cons_ok hfirst]
    exact ⟨m', hrest, hcombines.trans hothers (truncate_lt _ _) (Bool.toNat_le _)⟩

/-! ### Sums and differences in memory -/

private theorem length_program (k : Chain) (w : Width) (carried : Bool) (a : Nat) (zs : List Int) :
    (k.program w carried a zs).length = zs.length := by
  induction zs generalizing carried a with
  | nil => rfl
  | cons z zs ih => rw [Chain.program, List.length_cons, ih, List.length_cons]

private theorem constant_lt (w : Width) (zs : List Int) : Chain.constant w zs < 2 ^ (zs.length * w.bits) := by
  induction zs with
  | nil => simp [Chain.constant]
  | cons z zs ih =>
    have hlimb := truncate_lt w.bits z
    have hnext : 2 ^ w.bits * (Chain.constant w zs + 1) ≤ 2 ^ w.bits * 2 ^ (zs.length * w.bits) :=
      Nat.mul_le_mul_left _ ih
    rw [Nat.mul_succ] at hnext
    rw [List.length_cons, Nat.succ_mul, Nat.add_comm, Nat.pow_add, Chain.constant]
    omega

private theorem executeAll_program (k : Chain) {zs : List Int} {n : Nat} (hm : m.valid = true) (hzs : zs ≠ [])
    (hfits : ∀ z ∈ zs, fits w.bits z = true) (hn : zs.length * w.bytes = n) (hend : a + n ≤ m.capacity)
    (haddress : a + n ≤ 2 ^ 64) : ∃ m', m.executeAll (k.program w false a zs) = .ok m' ∧
      m'.readInteger a n = .ok (truncate (8 * n) (k.total (m.memory.number a n) (Chain.constant w zs) 0)) ∧
      m'.flags.carry = k.carries (8 * n) (m.memory.number a n) (Chain.constant w zs) 0 ∧
      m.ChangesOnly { flags := Flag.all, spans := [⟨a, n⟩] } m' ∧
      m'.rip = (m.rip + zs.length) % 2 ^ 64 ∧ m'.valid = true ∧ m'.capacity = m.capacity := by
  subst hn
  obtain ⟨m', hexecute, h⟩ := exists_executeAll_program k w false hfits (Or.inr hzs) hm haddress hend
  have hread : m'.readInteger a (zs.length * w.bytes : Nat) = .ok (m'.memory.number a (zs.length * w.bytes)) :=
    readInteger_eq_ok.2 ⟨h.capacity_eq ▸ hend, rfl⟩
  have hrip := rip_executeAll hm hexecute
  rw [length_program] at hrip
  exact ⟨m', hexecute, hread.trans (congrArg _ h.number_eq), h.carry_eq, h.changesOnly, hrip, h.valid, h.capacity_eq⟩

/-- The number in consecutive words is increased, or decreased, by the number that the constants make up, modulo the
range of the words; carry tells whether that wraps around, and besides the words, the flags and the counter nothing has
changed.  Addresses are numbers of 64 bits, so the words end where these do. -/
theorem executeAll_chains {m : Machine} {w : Width} {a : Nat} {zs : List Int} (hm : m.valid = true) (hzs : zs ≠ [])
    (hfits : ∀ z ∈ zs, fits w.bits z = true) (hend : a + zs.length * w.bytes ≤ m.capacity)
    (haddress : a + zs.length * w.bytes ≤ 2 ^ 64) :
    ∃ x, m.readInteger a (zs.length * w.bytes : Nat) = .ok x ∧
      (∃ m', m.executeAll (Chain.sum.program w false a zs) = .ok m' ∧
        m'.readInteger a (zs.length * w.bytes : Nat) = .ok ((x + Chain.constant w zs) % 2 ^ (zs.length * w.bits)) ∧
        (m'.flags.carry = true ↔ 2 ^ (zs.length * w.bits) ≤ x + Chain.constant w zs) ∧
        m.ChangesOnly { flags := Flag.all, spans := [⟨a, zs.length * w.bytes⟩] } m' ∧
        m'.rip = (m.rip + zs.length) % 2 ^ 64 ∧ m'.valid = true ∧ m'.capacity = m.capacity) ∧
      (∃ m', m.executeAll (Chain.difference.program w false a zs) = .ok m' ∧
        m'.readInteger a (zs.length * w.bytes : Nat) =
          .ok (truncate (zs.length * w.bits) ((x : Int) - Chain.constant w zs)) ∧
        (m'.flags.carry = true ↔ x < Chain.constant w zs) ∧
        m.ChangesOnly { flags := Flag.all, spans := [⟨a, zs.length * w.bytes⟩] } m' ∧
        m'.rip = (m.rip + zs.length) % 2 ^ 64 ∧ m'.valid = true ∧ m'.capacity = m.capacity) := by
  obtain ⟨n, hn⟩ : ∃ n, zs.length * w.bytes = n := ⟨_, rfl⟩
  obtain ⟨x, hx⟩ : ∃ x, m.memory.number a n = x := ⟨_, rfl⟩
  obtain ⟨y, hy⟩ : ∃ y, Chain.constant w zs = y := ⟨_, rfl⟩
  have hbits : zs.length * w.bits = 8 * n := by rw [← hn, Width.bits, Nat.mul_left_comm]
  have hxlt : x < 2 ^ (8 * n) := hx ▸ m.memory.number_lt a n
  have hylt : y < 2 ^ (8 * n) := hy ▸ hbits ▸ constant_lt w zs
  have hpow : ((2 ^ (8 * n) : Nat) : Int) = 2 ^ (8 * n) := by simp
  rw [hn] at hend haddress
  rw [hbits, hn, hy]
  refine ⟨x, readInteger_eq_ok.2 ⟨hend, hx⟩, ?_, ?_⟩
  · obtain ⟨m', hexecute, hread, hcarry, hrest⟩ := executeAll_program .sum hm hzs hfits hn hend haddress
    have hvalue : truncate (8 * n) (Chain.sum.total x y 0) = (x + y) % 2 ^ (8 * n) := by
      rw [← Chain.value_combine]
      rfl
    have hwraps : Chain.sum.carries (8 * n) x y 0 = true ↔ 2 ^ (8 * n) ≤ x + y := by
      rw [Chain.carries, decide_eq_true_eq, Chain.total]
      omega
    rw [hx, hy] at hread hcarry
    exact ⟨m', hexecute, hvalue ▸ hread, hcarry ▸ hwraps, hrest⟩
  · obtain ⟨m', hexecute, hread, hcarry, hrest⟩ := executeAll_program .difference hm hzs hfits hn hend haddress
    have hvalue : Chain.difference.total x y 0 = (x : Int) - y := Int.sub_zero _
    have hwraps : Chain.difference.carries (8 * n) x y 0 = true ↔ x < y := by
      rw [Chain.carries, decide_eq_true_eq, hvalue]
      omega
    rw [hx, hy] at hread hcarry
    exact ⟨m', hexecute, hvalue ▸ hread, hcarry ▸ hwraps, hrest⟩

/-- A carry runs through a byte of ones, and out of the last of three bytes; a constant may be negative. -/
theorem executeAll_chains_bytes : ∃ m : Machine, m.valid = true ∧ m.readInteger 0 3 = .ok 0x01ffff ∧
    (∀ z ∈ [1, 0, -2], fits 8 z = true) ∧ 0 + 3 * 1 ≤ m.capacity ∧ 0 + 3 * 1 ≤ 2 ^ 64 ∧
    (∃ m', m.executeAll (Chain.sum.program .byte false 0 [1, 0, -2]) = .ok m' ∧
      m'.readInteger 0 3 = .ok 0 ∧ m'.flags.carry = true ∧ m'.rip = 3) ∧
    ∃ m', m.executeAll (Chain.difference.program .byte false 0 [1, 0, -2]) = .ok m' ∧
      m'.readInteger 0 3 = .ok 0x03fffe ∧ m'.flags.carry = true ∧ m'.rip = 3 := by
  obtain ⟨m, hm⟩ : ∃ m : Machine, m = { fresh 3 with memory := (fresh 3).memory.store 0 [0xff, 0xff, 0x01] } :=
    ⟨_, rfl⟩
  have hvalid : m.valid = true := by
    rw [hm]
    decide
  have hread : m.readInteger 0 3 = .ok 0x01ffff := by
    rw [hm]
    decide
  have hcapacity : m.capacity = 3 := by rw [hm]; rfl
  have hrip : m.rip = 0 := by rw [hm]; rfl
  have hfits : ∀ z ∈ [1, 0, -2], fits 8 z = true := by decide
  have hend : 0 + 3 * 1 ≤ m.capacity := by omega
  obtain ⟨x, hx, ⟨m₁, hsum, hread₁, hcarry₁, -, hrip₁, -⟩, m₂, hdifference, hread₂, hcarry₂, -, hrip₂, -⟩ :=
    executeAll_chains (w := .byte) (a := 0) hvalid (by decide) hfits hend (by decide)
  obtain rfl : 0x01ffff = x := Except.ok.inj (hread.symm.trans hx)
  rw [hrip] at hrip₁ hrip₂
  exact ⟨m, hvalid, hread, hfits, hend, by decide, ⟨m₁, hsum, hread₁, hcarry₁.2 (by decide), hrip₁⟩,
    m₂, hdifference, hread₂, hcarry₂.2 (by decide), hrip₂⟩

end Machine

end LongMode

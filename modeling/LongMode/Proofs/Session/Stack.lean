import LongMode.Proofs.Session.Run

/-!
# The stack

Words that are pushed come back in the opposite order.

* `Machine.stack`: the topmost words of the stack.
* `execute_push` and `execute_pop`: what one push and one pop do, and where they fault.
* `Machine.Pushes` and `Machine.Pops`: numbers have been put on the stack, or moved from it to registers.  Both are
  taken apart one word at a time (`Pushes.cons`, `Pops.cons`), so pushes and pops of any number follow by induction
  (`exists_pushes`, `exists_pops`).
* `pushes_then_pops`: as many pops as pushes, and pushes on a stack without room for all of them.
-/

namespace LongMode

/-- What may be pushed: an immediate of 64 bits, or a whole register other than the stack pointer. -/
inductive Operand.Pushable : Operand → Prop
  | immediate {z : Int} (hz : fits 64 z = true) : Pushable (.immediate z 64)
  | register {c : Cell} (hc : c ≠ .rsp) : Pushable (.register (.low c .qword))

/-- Pushes of the operands in order, and then pops to the cells in order. -/
def Instruction.pushesThenPops (os : List Operand) (cs : List Cell) : List Instruction :=
  os.map (fun o => ⟨.push, [o]⟩) ++ cs.map fun c => ⟨.pop, [.register (.low c .qword)]⟩

/-- The numbers of eight bytes each in `k` consecutive places. -/
def Memory.words (m : Memory) (a : Nat) : Nat → List Nat
  | 0 => []
  | k + 1 => m.number a 8 :: m.words (a + 8) k

namespace Machine

open Transaction

/-- The topmost words of the stack, the last one pushed in front. -/
def stack (m : Machine) (k : Nat) : List Nat := m.memory.words (m.readView .rsp) k

variable {m m' : Machine} {o : Operand} {c : Cell} {x : Nat} {os : List Operand} {cs : List Cell}

/-! ### One push and one pop -/

theorem execute_push (ho : o.Pushable) (hx : o.value? m = some x) {top : Nat}
    (htop : truncate 64 ((m.readView .rsp : Int) - 8) = top) :
    m.execute ⟨.push, [o]⟩ =
      ((m.writeInteger top 8 x).mapError .outOfBounds).map fun stored => (stored.writeView .rsp top).advance := by
  obtain ⟨s, rfl, hread⟩ : ∃ s : Source, o = s.operand ∧ (start m).read s = .ok x := by
    cases ho with
    | @immediate z _ => exact ⟨.immediate z 64, rfl, congrArg Except.ok (Option.some.inj hx)⟩
    | @register c _ => exact ⟨.register (.low c .qword), rfl, congrArg Except.ok (Option.some.inj hx)⟩
  have hcheck : (Instruction.mk .push [s.operand]).check = .ok () := by
    refine Instruction.check_one (by decide) (by cases s <;> rfl) fun z n heq => ?_
    rw [heq] at ho
    cases ho with
    | immediate hz => exact hz
  have hop : (Instruction.mk .push [s.operand]).operation = .ok (.push s) := by
    have hsource : Operation.requireSource s.operand = .ok s := Operation.requireSource_eq_ok.2 rfl
    have hbits : s.operand.bits = 64 := by
      generalize s.operand = o at ho
      cases ho <;> rfl
    show Operation.ofPush s.operand = _
    rw [Operation.ofPush, if_pos hbits, hsource, map_ok]
  have hstore := (start m).result_writeInteger top 8 x
  rw [result_start] at hstore
  have hrun : ((Operation.push s).run (start m)).map result =
      ((m.writeInteger top 8 x).mapError Stop.outOfBounds).map (·.writeView .rsp top) := by
    have hsame : (start m).readView (.low .rsp .qword) = m.readView .rsp := rfl
    rw [Operation.run, hread, ok_bind, hsame, htop, ← hstore]
    dsimp only
    cases (start m).writeInteger top 8 x with
    | error e => rfl
    | ok t => exact congrArg Except.ok (t.result_writeView .rsp top)
  rw [execute_of_operation hcheck hop, hrun]
  cases m.writeInteger top 8 x <;> rfl

theorem execute_pop (hm : m.memory.size = m.capacity) (c : Cell) :
    m.execute ⟨.pop, [.register (.low c .qword)]⟩ =
      ((m.readInteger (m.readView .rsp) (8 : Nat)).mapError .outOfBounds).map fun (x : Nat) =>
        ((m.writeView .rsp ((m.readView .rsp : Int) + 8)).writeView (.low c .qword) x).advance := by
  have hcheck : (Instruction.mk .pop [.register (.low c .qword)]).check = .ok () :=
    Instruction.check_one (by decide) rfl nofun
  have hop : (Instruction.mk .pop [.register (.low c .qword)]).operation = .ok (.pop (.register (.low c .qword))) := rfl
  have hread := (start m).readInteger_result hm (m.readView .rsp) 8
  rw [result_start] at hread
  have hrun : ((Operation.pop (.register (.low c .qword))).run (start m)).map result =
      ((m.readInteger (m.readView .rsp) (8 : Nat)).mapError Stop.outOfBounds).map fun (x : Nat) =>
        (m.writeView .rsp ((m.readView .rsp : Int) + 8)).writeView (.low c .qword) x := by
    have hsame : (start m).readView (.low .rsp .qword) = m.readView .rsp := rfl
    rw [Operation.run, hsame, hread]
    cases (start m).readInteger (m.readView .rsp) 8 with
    | error e => rfl
    | ok x =>
      have hraised := (start m).result_writeView .rsp ((m.readView .rsp : Int) + 8)
      have hmoved := ((start m).writeView .rsp ((m.readView .rsp : Int) + 8)).result_writeView (.low c .qword) x
      rw [hraised, result_start] at hmoved
      exact congrArg Except.ok hmoved
  rw [execute_of_operation hcheck hop, hrun]
  cases m.readInteger (m.readView .rsp) (8 : Nat) <;> rfl

/-! ### Words of the stack -/

/-- The numbers have been pushed one after the other, below what was on the stack. -/
structure Pushes (m : Machine) (xs : List Nat) (m' : Machine) : Prop where
  rsp_eq : m'.readView .rsp + 8 * xs.length = m.readView .rsp
  stack_eq : ∀ k, m'.stack (xs.length + k) = xs.reverse ++ m.stack k
  changesOnly : m.ChangesOnly { views := [.rsp], spans := [⟨m'.readView .rsp, 8 * xs.length⟩] } m'
  valid : m'.valid = true
  capacity_eq : m'.capacity = m.capacity

/-- The topmost words of the stack have been moved to the cells. -/
structure Pops (m : Machine) (cs : List Cell) (m' : Machine) : Prop where
  rsp_eq : m'.readView .rsp = m.readView .rsp + 8 * cs.length
  values_eq : cs.map (fun c => m'.readView (.low c .qword)) = m.stack cs.length
  changesOnly : m.ChangesOnly { views := cs.map (.low · .qword) ++ [.rsp] } m'
  valid : m'.valid = true
  capacity_eq : m'.capacity = m.capacity

private theorem words_eq {p : Footprint} (h : m.ChangesOnly p m') {a : Nat}
    (hs : ∀ s ∈ p.spans, s.address + s.length ≤ a) (k : Nat) : m'.memory.words a k = m.memory.words a k := by
  induction k generalizing a with
  | zero => rfl
  | succ k ih =>
    have hfirst : m'.memory.number a 8 = m.memory.number a 8 := h.number_eq fun s hmem => Or.inl (hs s hmem)
    have hrest : m'.memory.words (a + 8) k = m.memory.words (a + 8) k :=
      ih fun s hmem => Nat.le_add_right_of_le (hs s hmem)
    rw [Memory.words, Memory.words, hfirst, hrest]

theorem exists_push (hm : m.valid = true) (ho : o.Pushable) (hx : o.value? m = some x) (h8 : 8 ≤ m.readView .rsp)
    (hrsp : m.readView .rsp ≤ m.capacity) : ∃ m', m.execute ⟨.push, [o]⟩ = .ok m' ∧ m.Pushes [x] m' := by
  obtain ⟨top, htop⟩ : ∃ top, m.readView .rsp = top + 8 := ⟨m.readView .rsp - 8, by omega⟩
  have hlt : top < 2 ^ 64 := by
    have hrsp : m.readView .rsp < 2 ^ 64 := View.read_lt _ _
    omega
  have hsub : truncate 64 ((m.readView .rsp : Int) - 8) = top := by
    have hcast : (m.readView .rsp : Int) - 8 = top := by omega
    rw [hcast]
    exact truncate_of_lt hlt
  have hx' : x < 2 ^ 64 := by
    cases ho with
    | immediate => exact Option.some.inj hx ▸ truncate_lt 64 _
    | register => exact Option.some.inj hx ▸ View.read_lt _ _
  obtain ⟨stored, hstored⟩ : ∃ stored, m.writeInteger top 8 x = .ok stored :=
    ⟨_, writeInteger_eq_ok.2 ⟨by omega, rfl⟩⟩
  have hexecute := execute_push ho hx hsub
  rw [hstored, mapError_ok, map_ok] at hexecute
  obtain ⟨m', hm'⟩ : ∃ m', (stored.writeView .rsp top).advance = m' := ⟨_, rfl⟩
  rw [hm'] at hexecute
  have hpointer : m'.readView .rsp = top := by
    rw [← hm']
    exact (readView_writeView stored .rsp top).trans (truncate_of_lt hlt)
  have hnumber : m'.memory.number top 8 = x := by
    rw [← hm']
    exact (number_writeInteger (valid_iff.1 hm).size_eq hstored).trans (truncate_of_lt hx')
  have hframe : m.ChangesOnly { views := [.rsp], spans := [⟨top, 8⟩] } m' := by
    have hbelow : m.belowStack = ⟨top, 8⟩ := by rw [belowStack, hsub]
    have hchanges := changesOnly_execute (fun _ _ h => by cases h.1) hexecute
    rw [← hbelow]
    exact hchanges
  obtain ⟨hvalid, hcapacity⟩ := valid_execute hm hexecute
  refine ⟨m', hexecute, ?_, fun k => ?_, hpointer ▸ hframe, hvalid, hcapacity⟩
  · rw [hpointer, htop]
    rfl
  · have hrest : m'.memory.words (top + 8) k = m.memory.words (top + 8) k :=
      words_eq hframe (by simp) k
    rw [List.length_singleton, Nat.add_comm, stack, hpointer, Memory.words, hnumber, hrest, stack, htop]
    rfl

theorem exists_pop (hm : m.valid = true) (hc : c ≠ .rsp) (hend : m.readView .rsp + 8 ≤ m.capacity)
    (hlt : m.readView .rsp + 8 < 2 ^ 64) :
    ∃ m', m.execute ⟨.pop, [.register (.low c .qword)]⟩ = .ok m' ∧ m.Pops [c] m' := by
  have hread : m.readInteger (m.readView .rsp) (8 : Nat) = .ok (m.memory.number (m.readView .rsp) 8) :=
    readInteger_eq_ok.2 ⟨hend, rfl⟩
  have hexecute := execute_pop (valid_iff.1 hm).size_eq c
  rw [hread, mapError_ok, map_ok] at hexecute
  obtain ⟨m', hm'⟩ : ∃ m', ((m.writeView .rsp ((m.readView .rsp : Int) + 8)).writeView (.low c .qword)
    (m.memory.number (m.readView .rsp) 8)).advance = m' := ⟨_, rfl⟩
  rw [hm'] at hexecute
  have hframe := changesOnly_execute (fun _ _ h => by cases h.1) hexecute
  obtain ⟨hvalid, hcapacity⟩ := valid_execute hm hexecute
  refine ⟨m', hexecute, ?_, ?_, hframe, hvalid, hcapacity⟩
  · have hcell : (View.low c .qword).cell ≠ View.rsp.cell := hc
    rw [← hm']
    exact (readView_writeView_of_ne hcell _ _).trans ((readView_writeView m .rsp _).trans (truncate_of_lt hlt))
  · have hvalue : m'.readView (.low c .qword) = m.memory.number (m.readView .rsp) 8 := by
      rw [← hm']
      exact (readView_writeView _ (.low c .qword) _).trans (truncate_of_lt (m.memory.number_lt _ 8))
    rw [List.map_singleton, hvalue]
    rfl

/-! ### Many pushes and many pops -/

theorem Pushes.nil (hm : m.valid = true) : m.Pushes [] m where
  rsp_eq := rfl
  stack_eq k := by rw [List.length_nil, Nat.zero_add]; rfl
  changesOnly := .refl m _
  valid := hm
  capacity_eq := rfl

theorem Pushes.cons {m₁ : Machine} {xs : List Nat} (h₁ : m.Pushes [x] m₁) (h : m₁.Pushes xs m') :
    m.Pushes (x :: xs) m' where
  rsp_eq := by
    have hfirst : m₁.readView .rsp + 8 * 1 = m.readView .rsp := h₁.rsp_eq
    have hrest := h.rsp_eq
    rw [List.length_cons]
    omega
  stack_eq k := by
    have hfirst : m₁.stack (1 + k) = [x] ++ m.stack k := h₁.stack_eq k
    rw [List.length_cons, Nat.add_assoc, h.stack_eq, hfirst, List.reverse_cons, List.append_assoc]
  changesOnly := by
    have hfirst : m₁.readView .rsp + 8 * 1 = m.readView .rsp := h₁.rsp_eq
    have hrest := h.rsp_eq
    have hupper : (Span.mk (m₁.readView .rsp) (8 * 1)).Within ⟨m'.readView .rsp, 8 * (x :: xs).length⟩ := by
      rw [List.length_cons]
      exact ⟨by dsimp only; omega, by dsimp only; omega⟩
    have hlower : (Span.mk (m'.readView .rsp) (8 * xs.length)).Within ⟨m'.readView .rsp, 8 * (x :: xs).length⟩ := by
      rw [List.length_cons]
      exact ⟨Nat.le_refl _, by dsimp only; omega⟩
    exact (h₁.changesOnly.widen (p := { views := [.rsp] }) hupper).trans
      (h.changesOnly.widen (p := { views := [.rsp] }) hlower)
  valid := h.valid
  capacity_eq := h.capacity_eq.trans h₁.capacity_eq

theorem Pops.nil (hm : m.valid = true) : m.Pops [] m where
  rsp_eq := rfl
  values_eq := rfl
  changesOnly := .refl m _
  valid := hm
  capacity_eq := rfl

theorem Pops.cons {m₁ : Machine} (h₁ : m.Pops [c] m₁) (h : m₁.Pops cs m') (hc : c ≠ .rsp)
    (hcs : c ∉ cs) : m.Pops (c :: cs) m' where
  rsp_eq := by
    have hfirst : m₁.readView .rsp = m.readView .rsp + 8 * 1 := h₁.rsp_eq
    have hrest := h.rsp_eq
    rw [List.length_cons]
    omega
  values_eq := by
    have hfirst : [m₁.readView (.low c .qword)] = m.stack 1 := h₁.values_eq
    -- the pops after it write neither this cell nor memory
    have hkept : m'.readView (.low c .qword) = m₁.readView (.low c .qword) := by
      refine h.changesOnly.readView_eq fun u hu => ?_
      rcases List.mem_append.1 hu with hu | hu
      · obtain ⟨d, hd, rfl⟩ := List.mem_map.1 hu
        rintro rfl
        exact hcs hd
      · rw [List.mem_singleton.1 hu]
        exact hc.symm
    have hmemory : m₁.stack cs.length = m.memory.words (m.readView .rsp + 8) cs.length := by
      rw [stack, h₁.rsp_eq]
      exact words_eq h₁.changesOnly nofun _
    have hhead : m₁.readView (.low c .qword) = m.memory.number (m.readView .rsp) 8 := List.head_eq_of_cons_eq hfirst
    rw [List.map_cons, h.values_eq, hkept, hmemory, hhead]
    rfl
  changesOnly := by
    have hwide {ds : List Cell} {n n' : Machine} (hds : ds ⊆ c :: cs)
        (hn : n.ChangesOnly { views := ds.map (.low · .qword) ++ [.rsp] } n') :
        n.ChangesOnly { views := (c :: cs).map (.low · .qword) ++ [.rsp] } n' := by
      refine hn.mono ?_ (List.Subset.refl _) (List.Subset.refl _) nofun
      exact List.append_subset.2 ⟨List.subset_append_of_subset_left _ (List.map_subset _ hds),
        List.subset_append_right _ _⟩
    exact (hwide (List.cons_subset.2 ⟨List.mem_cons_self, List.nil_subset _⟩) h₁.changesOnly).trans
      (hwide (List.subset_cons_self _ _) h.changesOnly)
  valid := h.valid
  capacity_eq := h.capacity_eq.trans h₁.capacity_eq

/-- A push leaves what may be pushed after it alone. -/
private theorem Pushes.value?_eq {xs : List Nat} (h : m.Pushes xs m') (ho : o.Pushable) :
    o.value? m' = o.value? m := by
  cases ho with
  | immediate => rfl
  | @register c hc =>
    have hcell : ∀ u ∈ [View.rsp], u.cell ≠ (View.low c .qword).cell := by
      intro u hu
      rw [List.mem_singleton.1 hu]
      exact hc.symm
    exact congrArg some (h.changesOnly.readView_eq hcell)

theorem exists_pushes {xs : List Nat} (hm : m.valid = true) (hos : ∀ o ∈ os, o.Pushable)
    (hxs : os.map (Operand.value? m) = xs.map some) (h8 : 8 * os.length ≤ m.readView .rsp)
    (hrsp : m.readView .rsp ≤ m.capacity) :
    ∃ m', m.executeAll (os.map fun o => ⟨.push, [o]⟩) = .ok m' ∧ m.Pushes xs m' := by
  induction os generalizing m xs with
  | nil =>
    obtain rfl : xs = [] := List.map_eq_nil_iff.1 hxs.symm
    exact ⟨m, rfl, .nil hm⟩
  | cons o os ih =>
    obtain ⟨x, xs, rfl⟩ : ∃ x xs', xs = x :: xs' := by
      cases xs with
      | nil => cases hxs
      | cons x xs => exact ⟨x, xs, rfl⟩
    rw [List.map_cons, List.map_cons, List.cons.injEq] at hxs
    rw [List.length_cons] at h8
    have hrest : ∀ o ∈ os, o.Pushable := fun o ho => hos o (List.mem_cons_of_mem _ ho)
    obtain ⟨m₁, hfirst, hpush⟩ := exists_push hm (hos o List.mem_cons_self) hxs.1 (by omega) hrsp
    have hpointer : m₁.readView .rsp + 8 * 1 = m.readView .rsp := hpush.rsp_eq
    have hvalues : os.map (Operand.value? m₁) = xs.map some := by
      rw [← hxs.2]
      exact List.map_congr_left fun o ho => hpush.value?_eq (hrest o ho)
    obtain ⟨m', hothers, hpushes⟩ := ih hpush.valid hrest hvalues (by omega) (by rw [hpush.capacity_eq]; omega)
    exact ⟨m', (executeAll_cons_ok hfirst _).trans hothers, hpush.cons hpushes⟩

theorem exists_pops (hm : m.valid = true) (hcs : cs.Nodup) (hrsp : .rsp ∉ cs)
    (hend : m.readView .rsp + 8 * cs.length ≤ m.capacity) (hlt : m.readView .rsp + 8 * cs.length < 2 ^ 64) :
    ∃ m', m.executeAll (cs.map fun c => ⟨.pop, [.register (.low c .qword)]⟩) = .ok m' ∧ m.Pops cs m' := by
  induction cs generalizing m with
  | nil => exact ⟨m, rfl, .nil hm⟩
  | cons c cs ih =>
    rw [List.length_cons] at hend hlt
    obtain ⟨hfresh, hcs⟩ := List.nodup_cons.1 hcs
    have hc : c ≠ .rsp := fun h => hrsp (h ▸ List.mem_cons_self)
    obtain ⟨m₁, hfirst, hpop⟩ := exists_pop hm hc (by omega) (by omega)
    have hpointer : m₁.readView .rsp = m.readView .rsp + 8 * 1 := hpop.rsp_eq
    obtain ⟨m', hothers, hpops⟩ := ih hpop.valid hcs (fun h => hrsp (List.mem_cons_of_mem _ h))
      (by rw [hpop.capacity_eq]; omega) (by omega)
    exact ⟨m', (executeAll_cons_ok hfirst _).trans hothers, hpop.cons hpops hc hfresh⟩

/-! ### Last in, first out -/

/-- With fewer than eight bytes below the stack pointer, a push would store at the end of the addresses. -/
private theorem execute_push_error (ho : o.Pushable) (hlow : m.readView .rsp < 8) (hcapacity : m.capacity < 2 ^ 64) :
    ∃ f, m.execute ⟨.push, [o]⟩ = .error f ∧ f.kind = .memoryOutOfBounds := by
  obtain ⟨x, hx⟩ : ∃ x, o.value? m = some x := by cases ho <;> exact ⟨_, rfl⟩
  obtain ⟨r, hr⟩ : ∃ r, m.readView .rsp = r := ⟨_, rfl⟩
  rw [hr] at hlow
  have hsub : truncate 64 ((m.readView .rsp : Int) - 8) = 2 ^ 64 - 8 + r := by
    rw [hr, truncate]
    omega
  have hwrite : m.writeInteger (2 ^ 64 - 8 + r : Nat) 8 x = .error ⟨(2 ^ 64 - 8 + r : Nat), 8, m.capacity⟩ := by
    have hout : ¬ m.Covers (2 ^ 64 - 8 + r : Nat) (8 : Nat) := by
      rw [covers_natCast]
      omega
    rw [writeInteger, if_neg hout]
    rfl
  refine ⟨.outOfBounds ⟨(2 ^ 64 - 8 + r : Nat), 8, m.capacity⟩, ?_, rfl⟩
  rw [execute_push ho hx hsub, hwrite]
  rfl

private theorem exists_values (hos : ∀ o ∈ os, o.Pushable) (m : Machine) :
    ∃ xs : List Nat, os.map (Operand.value? m) = xs.map some ∧ xs.length = os.length := by
  induction os with
  | nil => exact ⟨[], rfl, rfl⟩
  | cons o os ih =>
    obtain ⟨xs, hxs, hlength⟩ := ih fun o ho => hos o (List.mem_cons_of_mem _ ho)
    obtain ⟨x, hx⟩ : ∃ x, o.value? m = some x := by cases hos o List.mem_cons_self <;> exact ⟨_, rfl⟩
    exact ⟨x :: xs, by rw [List.map_cons, hx, hxs, List.map_cons], congrArg (· + 1) hlength⟩

private theorem executeAll_pushesThenPops (hm : m.valid = true) (hos : ∀ o ∈ os, o.Pushable) (hcs : cs.Nodup)
    (hfresh : .rsp ∉ cs) (hlength : os.length = cs.length) (hrsp : m.readView .rsp ≤ m.capacity)
    (h8 : 8 * os.length ≤ m.readView .rsp) :
    ∃ m', m.executeAll (Instruction.pushesThenPops os cs) = .ok m' ∧
      cs.map (fun c => some (m'.readView (.low c .qword))) = (os.map (Operand.value? m)).reverse ∧
      m'.readView .rsp = m.readView .rsp ∧
      m.ChangesOnly
        { views := cs.map (.low · .qword) ++ [.rsp],
          spans := [⟨m.readView .rsp - 8 * os.length, 8 * os.length⟩] } m' := by
  obtain ⟨xs, hxs, hcount⟩ := exists_values hos m
  obtain ⟨m₁, hfirst, hpushes⟩ := exists_pushes hm hos hxs h8 hrsp
  have hbelow := hpushes.rsp_eq
  have hlt : m.readView .rsp < 2 ^ 64 := View.read_lt _ _
  obtain ⟨m', hsecond, hpops⟩ := exists_pops hpushes.valid hcs hfresh (by rw [hpushes.capacity_eq]; omega) (by omega)
  have hback := hpops.rsp_eq
  refine ⟨m', ?_, ?_, by omega, ?_⟩
  · rw [Instruction.pushesThenPops, executeAll_append, hfirst, ok_bind, hsecond]
  · have hstack : m₁.stack xs.length = xs.reverse := by
      have hall := hpushes.stack_eq 0
      rw [Nat.add_zero] at hall
      exact hall.trans (List.append_nil _)
    have hvalues := hpops.values_eq
    rw [← hlength, ← hcount, hstack] at hvalues
    rw [hxs, ← List.map_reverse, ← hvalues, List.map_map]
    rfl
  · have hspan : m₁.readView .rsp = m.readView .rsp - 8 * os.length := by omega
    have hpushed := hpushes.changesOnly
    rw [hspan, hcount] at hpushed
    exact ChangesOnly.trans
      (hpushed.mono (List.subset_append_right _ _) (List.Subset.refl _) (List.Subset.refl _)
        fun s hs => ⟨s, hs, .refl s⟩)
      (hpops.changesOnly.mono (List.Subset.refl _) (List.Subset.refl _) (List.Subset.refl _) nofun)

private theorem faultsAt_pushesThenPops (hm : m.valid = true) (hos : ∀ o ∈ os, o.Pushable) (cs : List Cell)
    (hrsp : m.readView .rsp ≤ m.capacity) (hlow : m.readView .rsp < 8 * os.length) (hcapacity : m.capacity < 2 ^ 64) :
    ∃ last f, m.FaultsAt (Instruction.pushesThenPops os cs) (m.readView .rsp / 8) last f ∧
      f.kind = .memoryOutOfBounds := by
  obtain ⟨k, hk⟩ : ∃ k, m.readView .rsp / 8 = k := ⟨_, rfl⟩
  have hlt : k < os.length := by omega
  have hfew : ∀ o ∈ os.take k, o.Pushable := fun o ho => hos o (List.mem_of_mem_take ho)
  obtain ⟨xs, hxs, hcount⟩ := exists_values hfew m
  rw [List.length_take_of_le (by omega)] at hcount
  obtain ⟨last, hfront, hpushes⟩ := exists_pushes hm hfew hxs
    (by rw [List.length_take_of_le (by omega)]; omega) hrsp
  have hbelow := hpushes.rsp_eq
  obtain ⟨f, hfault, hkind⟩ := execute_push_error (m := last) (hos os[k] (List.getElem_mem hlt)) (by omega)
    (by rw [hpushes.capacity_eq]; exact hcapacity)
  refine ⟨last, f, ⟨?_, ⟨.push, [os[k]]⟩, ?_, hfault⟩, hkind⟩
  · have hpushed : k ≤ (os.map fun o => Instruction.mk .push [o]).length := by
      rw [List.length_map]
      omega
    rw [hk, Instruction.pushesThenPops, List.take_append_of_le_length hpushed, ← List.map_take]
    exact hfront
  · have hpushed : k < (os.map fun o => Instruction.mk .push [o]).length := by
      rw [List.length_map]
      exact hlt
    rw [hk, Instruction.pushesThenPops, List.getElem?_append_left hpushed, List.getElem?_map,
      List.getElem?_eq_getElem hlt, Option.map_some]

/-- As many pops as pushes take the pushed values off the stack in the opposite order, and with it the stack pointer
goes back; nothing has changed but the popped registers and the bytes that the pushes have stored in.  Where the stack
pointer is too low for all of them, the pushes in front of the first that would go below address zero are executed, and
that one faults.  This takes a memory whose addresses are numbers of 64 bits. -/
theorem pushes_then_pops (hm : m.valid = true) (hos : ∀ o ∈ os, o.Pushable) (hcs : cs.Nodup) (hfresh : .rsp ∉ cs)
    (hlength : os.length = cs.length) (hrsp : m.readView .rsp ≤ m.capacity) :
    (8 * os.length ≤ m.readView .rsp → ∃ m', m.executeAll (Instruction.pushesThenPops os cs) = .ok m' ∧
        cs.map (fun c => some (m'.readView (.low c .qword))) = (os.map (Operand.value? m)).reverse ∧
        m'.readView .rsp = m.readView .rsp ∧
        m.ChangesOnly
          { views := cs.map (.low · .qword) ++ [.rsp],
            spans := [⟨m.readView .rsp - 8 * os.length, 8 * os.length⟩] } m') ∧
      (m.readView .rsp < 8 * os.length → m.capacity < 2 ^ 64 → ∃ last f,
        m.FaultsAt (Instruction.pushesThenPops os cs) (m.readView .rsp / 8) last f ∧ f.kind = .memoryOutOfBounds ∧
          (m.run (Instruction.pushesThenPops os cs)).1.failure = some (m.readView .rsp / 8, .fault f) ∧
          (m.run (Instruction.pushesThenPops os cs)).2 = last) := by
  refine ⟨executeAll_pushesThenPops hm hos hcs hfresh hlength hrsp, fun hlow hcapacity => ?_⟩
  obtain ⟨last, f, hfaults, hkind⟩ := faultsAt_pushesThenPops hm hos cs hrsp hlow hcapacity
  have hrun := attemptAll_of_faultsAt hfaults 0
  rw [Nat.zero_add] at hrun
  exact ⟨last, f, hfaults, hkind, congrArg Prod.fst hrun, congrArg Prod.snd hrun⟩

/-- An immediate and a register through an unaligned stack with room for two words: they come back in the opposite
order, the register's own cell included, and a third push faults. -/
theorem pushes_then_pops_unaligned : ∃ m : Machine, m.valid = true ∧ m.readView .rsp = 21 ∧
    m.readView .rsp ≤ m.capacity ∧ m.capacity < 2 ^ 64 ∧ m.readView (.low .rbx .qword) = 7 ∧
    (∃ m', m.executeAll (Instruction.pushesThenPops [.immediate (-1) 64, .register (.low .rbx .qword)] [.rax, .rbx]) =
        .ok m' ∧
      m'.readView (.low .rax .qword) = 7 ∧ m'.readView (.low .rbx .qword) = 2 ^ 64 - 1 ∧ m'.readView .rsp = 21) ∧
    ∃ last f, m.FaultsAt
        (Instruction.pushesThenPops [.immediate (-1) 64, .register (.low .rbx .qword), .immediate 0 64]
          [.rax, .rbx, .rcx]) 2 last f ∧
      f.kind = .memoryOutOfBounds := by
  obtain ⟨m, hm⟩ : ∃ m : Machine, m = ((fresh 32).writeView .rsp 21).writeView (.low .rbx .qword) 7 := ⟨_, rfl⟩
  have hvalid : m.valid = true := by
    rw [hm]
    decide
  have hpointer : m.readView .rsp = 21 := by rw [hm]; rfl
  have hregister : m.readView (.low .rbx .qword) = 7 := by rw [hm]; rfl
  have hcapacity : m.capacity = 32 := by rw [hm]; rfl
  have hrsp : m.readView .rsp ≤ m.capacity := by omega
  have hones : (Operand.immediate (-1) 64).Pushable := .immediate (by decide)
  have hzero : (Operand.immediate 0 64).Pushable := .immediate (by decide)
  have hrbx : (Operand.register (.low .rbx .qword)).Pushable := .register (by decide)
  have htwo : ∀ o ∈ [Operand.immediate (-1) 64, .register (.low .rbx .qword)], o.Pushable := by simp [hones, hrbx]
  have hthree : ∀ o ∈ [Operand.immediate (-1) 64, .register (.low .rbx .qword), .immediate 0 64], o.Pushable := by
    simp [hones, hrbx, hzero]
  have hcells : [Cell.rax, .rbx].Nodup := by decide
  have hcells' : [Cell.rax, .rbx, .rcx].Nodup := by decide
  obtain ⟨m', hexecute, hvalues, hback, -⟩ := (pushes_then_pops hvalid htwo hcells (by decide) rfl hrsp).1
      (by rw [hpointer]; decide)
  obtain ⟨last, f, hfaults, hkind, -⟩ := (pushes_then_pops hvalid hthree hcells' (by decide) rfl hrsp).2
      (by rw [hpointer]; decide) (by omega)
  rw [hpointer] at hfaults
  have hpopped : [some (m'.readView (.low .rax .qword)), some (m'.readView (.low .rbx .qword))] =
      [some (m.readView (.low .rbx .qword)), some (2 ^ 64 - 1)] := hvalues
  rw [List.cons.injEq, List.cons.injEq, Option.some.injEq, Option.some.injEq] at hpopped
  exact ⟨m, hvalid, hpointer, hrsp, by omega, hregister,
    ⟨m', hexecute, hpopped.1.trans hregister, hpopped.2.1, hback.trans hpointer⟩, last, f, hfaults, hkind⟩

end Machine

end LongMode

import LongMode.Assembly.Line
import LongMode.Proofs.MachineCode.Decode.Canonical
import LongMode.Proofs.MachineCode.Encodable

/-!
# Machine code has one reading

Machine code determines the instruction, up to what it does not say (`Instruction.Alike`): which of the integers with
the same low bits an immediate is, the width of an address that is only loaded, and which operand comes first where the
form treats both alike.

* `alike_iff`: instructions have the same machine code exactly when they are alike.
* `encode_append_inj`: machine code says where it ends.
* `encodings_flatten_inj`: a sequence of encodings splits in only one way.
-/

namespace LongMode

/-! ### Instructions with the same machine code -/

/-- Equal operands, but for the high bits of immediates. -/
def Operand.Alike : Operand → Operand → Prop
  | immediate y m, immediate z n => m = n ∧ y % 2 ^ m = z % 2 ^ m
  | o, p => o = p

def Operand.AllAlike : List Operand → List Operand → Prop
  | [], [] => True
  | o :: os, p :: ps => o.Alike p ∧ AllAlike os ps
  | _, _ => False

/-- Instructions between which machine code does not tell: the least equivalence that makes these identifications. -/
inductive Instruction.Alike : Instruction → Instruction → Prop
  | operands {m : Mnemonic} {os ps : List Operand} (h : Operand.AllAlike os ps) : Alike ⟨m, os⟩ ⟨m, ps⟩
  | address (v : View) (a : Address) (w w' : Width) :
    Alike ⟨.lea, [.register v, .memory ⟨a, w⟩]⟩ ⟨.lea, [.register v, .memory ⟨a, w'⟩]⟩
  | test (v : View) (l : Location) :
    Alike ⟨.test, [.register v, .memory l]⟩ ⟨.test, [.memory l, .register v]⟩
  | exchange (v : View) (l : Location) :
    Alike ⟨.xchg, [.register v, .memory l]⟩ ⟨.xchg, [.memory l, .register v]⟩
  | accumulator (v : View) (hv : v.width ≠ .byte) :
    Alike ⟨.xchg, [.register (.low .rax v.width), .register v]⟩ ⟨.xchg, [.register v, .register (.low .rax v.width)]⟩
  | symm {i j : Instruction} (h : Alike i j) : Alike j i
  | trans {i j k : Instruction} (h : Alike i j) (h' : Alike j k) : Alike i k

theorem Operand.reduced_eq_iff {o p : Operand} : o.reduced = p.reduced ↔ o.Alike p := by
  cases o <;> cases p <;> simp [reduced, Alike]
  rename_i y m z n
  constructor
  · rintro ⟨h, rfl⟩
    exact ⟨rfl, signed_inj.1 h⟩
  · rintro ⟨rfl, h⟩
    exact ⟨signed_inj.2 h, rfl⟩

theorem Operand.map_reduced_eq_iff {os ps : List Operand} :
    os.map reduced = ps.map reduced ↔ AllAlike os ps := by
  induction os generalizing ps with
  | nil => cases ps <;> simp [AllAlike]
  | cons o os ih =>
    cases ps with
    | nil => simp [AllAlike]
    | cons p ps => simp only [List.map_cons, List.cons.injEq, reduced_eq_iff, ih, AllAlike]

namespace Instruction

/-! ### Alike -/

theorem Alike.canonical_eq {i j : Instruction} (h : i.Alike j) : i.canonical = j.canonical := by
  induction h with
  | operands h =>
    unfold canonical
    rw [Operand.map_reduced_eq_iff.2 h]
  | address | test | exchange => rfl
  | accumulator v hv =>
    have hleft : (Instruction.mk .xchg [.register (.low .rax v.width), .register v]).canonical = ⟨.xchg,
        if v.width ≠ .byte ∧ v.cell = .rax then [.register v, .register (.low .rax v.width)]
        else [.register (.low .rax v.width), .register v]⟩ := rfl
    have hright : (Instruction.mk .xchg [.register v, .register (.low .rax v.width)]).canonical =
        ⟨.xchg, [.register (.low .rax v.width), .register v]⟩ :=
      congrArg (Instruction.mk .xchg) (if_pos ⟨hv, rfl⟩)
    rw [hleft, hright]
    split
    · rename_i hc
      rw [← MachineCode.eq_of_cell_rax hc.1 hc.2]
    · rfl
  | symm _ ih => exact ih.symm
  | trans _ _ ih ih' => exact ih.trans ih'

theorem alike_reduced (m : Mnemonic) (os : List Operand) : Alike ⟨m, os⟩ ⟨m, os.map Operand.reduced⟩ := by
  refine .operands (Operand.map_reduced_eq_iff.1 ?_)
  rw [List.map_map]
  refine List.map_congr_left fun o _ => ?_
  cases o with
  | immediate z n => exact congrArg (fun y => Operand.immediate y n) (signed_signed n z).symm
  | _ => rfl

private theorem map_reduced_pair {os : List Operand} {a b : Operand} (h : os.map Operand.reduced = [a, b]) :
    ∃ o p, os = [o, p] ∧ o.reduced = a ∧ p.reduced = b := by
  obtain ⟨o, rest, rfl, ho, hrest⟩ := List.map_eq_cons_iff.1 h
  obtain ⟨p, rest, rfl, hp, hnil⟩ := List.map_eq_cons_iff.1 hrest
  obtain rfl := List.map_eq_nil_iff.1 hnil
  exact ⟨o, p, rfl, ho, hp⟩

private theorem eq_register_of_reduced {o : Operand} {v : View} (h : o.reduced = .register v) : o = .register v := by
  cases o <;> first | exact h | cases h

private theorem alike_loadAddress {operands : List Operand} {d : Operand} {l : Location} {c : Code}
    (h : MachineCode.encodeOperands .lea operands = .ok c) (he : operands.map Operand.reduced = [d, .memory l]) :
    Alike ⟨.lea, [d, .memory l]⟩ ⟨.lea, [d, .memory ⟨l.address, .qword⟩]⟩ := by
  obtain ⟨o, p, rfl, rfl, -⟩ := map_reduced_pair he
  obtain ⟨v, -, rfl, -⟩ := Operation.exists_ofLoadAddress.1 (MachineCode.exists_encodeLoadAddress.1 ⟨c, h⟩).1
  exact .address v l.address l.width .qword

private theorem alike_exchange {operands : List Operand} {u v : View} {c : Code}
    (h : MachineCode.encodeOperands .xchg operands = .ok c)
    (he : operands.map Operand.reduced = [.register u, .register v]) (hb : v.width ≠ .byte) (hc : v.cell = .rax) :
    Alike ⟨.xchg, [.register u, .register v]⟩ ⟨.xchg, [.register v, .register u]⟩ := by
  obtain ⟨o, p, rfl, ho, hp⟩ := map_reduced_pair he
  obtain rfl := eq_register_of_reduced ho
  obtain rfl := eq_register_of_reduced hp
  -- the encoder accepts registers of one width only
  obtain ⟨a, b, ha, hb', hw⟩ := Operation.exists_ofExchange.1 (MachineCode.exists_encodeExchange.1 ⟨c, h⟩).1
  have hw : u.width = v.width := by
    obtain rfl := MachineCode.register_operand ha.symm
    obtain rfl := MachineCode.register_operand hb'.symm
    exact hw
  rw [MachineCode.eq_of_cell_rax hb hc, ← hw]
  exact .symm (.accumulator u (hw ▸ hb))

theorem alike_canonical {i : Instruction} {c : Code} (h : i.code = .ok c) : i.Alike i.canonical := by
  obtain ⟨m, operands⟩ := i
  have hcode : MachineCode.encodeOperands m operands = .ok c := (code_eq_ok.1 h).2
  clear h
  refine (alike_reduced m operands).trans ?_
  unfold canonical
  dsimp only
  split
  · rename_i he
    rw [he]
    exact alike_loadAddress hcode he
  · rename_i he
    rw [he]
    exact .test _ _
  · rename_i he
    rw [he]
    exact .exchange _ _
  · rename_i he
    rw [he]
    split
    · rename_i hc
      exact alike_exchange hcode he hc.1 hc.2
    · exact .operands (Operand.map_reduced_eq_iff.1 rfl)
  · exact .operands (Operand.map_reduced_eq_iff.1 rfl)

/-- Instructions have the same machine code exactly when they are alike. -/
theorem alike_iff {i j : Instruction} {c d : Code} (hi : i.WellFormed) (hj : j.WellFormed) (hc : i.code = .ok c)
    (hd : j.code = .ok d) : i.Alike j ↔ c = d := by
  constructor
  · intro h
    have hi' := code_canonical hi hc
    rw [h.canonical_eq, code_canonical hj hd] at hi'
    exact (Except.ok.inj hi').symm
  · rintro rfl
    -- the code spells the canonical form of either
    have he : i.canonical = j.canonical :=
      Option.some.inj ((spells_code hi hc).instruction.symm.trans (spells_code hj hd).instruction)
    have h := alike_canonical hc
    rw [he] at h
    exact h.trans (alike_canonical hd).symm

/-! ### Bytes -/

/-- The reading of some text. -/
def IsReadable (i : Instruction) : Prop := ∃ text, Assembly.parse text = .ok i

theorem IsReadable.wellFormed {i : Instruction} (h : i.IsReadable) : i.WellFormed := by
  obtain ⟨text, h⟩ := h
  exact Assembly.parse_wellFormed h

theorem encode_eq_ok {i : Instruction} {xs : List UInt8} :
    i.encode = .ok xs ↔ ∃ c, i.code = .ok c ∧ c.bytes = xs := map_eq_ok

private theorem code_append_inj {i j : Instruction} {c d : Code} {r s : List UInt8} (hi : i.WellFormed)
    (hj : j.WellFormed) (hc : i.code = .ok c) (hd : j.code = .ok d) (h : c.bytes ++ r = d.bytes ++ s) :
    c = d ∧ r = s := by
  obtain ⟨p, hp⟩ := (spells_code hi hc).framed
  obtain ⟨q, hq⟩ := (spells_code hj hd).framed
  have hread := congrArg Code.read? h
  rwa [Code.read?_bytes hp, Code.read?_bytes hq, Option.some.injEq, Prod.mk.injEq] at hread

/-- The first of two instructions in machine code is known where it ends. -/
theorem encode_append_inj {i j : Instruction} {xs ys r s : List UInt8} (hi : i.WellFormed) (hj : j.WellFormed)
    (hx : i.encode = .ok xs) (hy : j.encode = .ok ys) (h : xs ++ r = ys ++ s) : xs = ys ∧ r = s := by
  obtain ⟨c, hc, rfl⟩ := encode_eq_ok.1 hx
  obtain ⟨d, hd, rfl⟩ := encode_eq_ok.1 hy
  obtain ⟨rfl, hrest⟩ := code_append_inj hi hj hc hd h
  exact ⟨rfl, hrest⟩

theorem encode_ne_nil {i : Instruction} {xs : List UInt8} (hi : i.WellFormed) (hx : i.encode = .ok xs) : xs ≠ [] := by
  obtain ⟨c, hc, rfl⟩ := encode_eq_ok.1 hx
  obtain ⟨p, hp⟩ := (spells_code hi hc).framed
  intro hnil
  have hread := Code.read?_bytes hp []
  rw [hnil] at hread
  cases hread

theorem encode_eq_iff_alike {i j : Instruction} {xs ys : List UInt8} (hi : i.WellFormed) (hj : j.WellFormed)
    (hx : i.encode = .ok xs) (hy : j.encode = .ok ys) : xs = ys ↔ i.Alike j := by
  obtain ⟨c, hc, rfl⟩ := encode_eq_ok.1 hx
  obtain ⟨d, hd, rfl⟩ := encode_eq_ok.1 hy
  rw [alike_iff hi hj hc hd]
  exact ⟨fun h => (code_append_inj hi hj hc hd (congrArg (· ++ []) h)).1, congrArg Code.bytes⟩

theorem encodings_flatten_inj {is js : List Instruction} {xss yss : List (List UInt8)}
    (hi : ∀ i ∈ is, i.WellFormed) (hj : ∀ j ∈ js, j.WellFormed) (hx : is.map encode = xss.map .ok)
    (hy : js.map encode = yss.map .ok) (h : xss.flatten = yss.flatten) : xss = yss := by
  induction is generalizing js xss yss with
  | nil =>
    obtain rfl : xss = [] := by simpa using hx.symm
    cases js with
    | nil => exact (by simpa using hy.symm : yss = []).symm
    | cons j js =>
      cases yss with
      | nil => rfl
      | cons ys yss =>
        simp only [List.map_cons, List.cons.injEq] at hy
        rw [List.flatten_nil, List.flatten_cons] at h
        exact absurd (List.append_eq_nil_iff.1 h.symm).1 (encode_ne_nil (hj j List.mem_cons_self) hy.1)
  | cons i is ih =>
    cases xss with
    | nil => simp at hx
    | cons xs xss =>
      simp only [List.map_cons, List.cons.injEq] at hx
      cases js with
      | nil =>
        obtain rfl : yss = [] := by simpa using hy.symm
        rw [List.flatten_nil, List.flatten_cons] at h
        exact absurd (List.append_eq_nil_iff.1 h).1 (encode_ne_nil (hi i List.mem_cons_self) hx.1)
      | cons j js =>
        cases yss with
        | nil => simp at hy
        | cons ys yss =>
          simp only [List.map_cons, List.cons.injEq] at hy
          rw [List.flatten_cons, List.flatten_cons] at h
          -- the first encodings end at the same byte, and the induction goes on behind them
          obtain ⟨rfl, hrest⟩ := encode_append_inj (hi i List.mem_cons_self) (hj j List.mem_cons_self) hx.1 hy.1 h
          rw [ih (fun i h => hi i (List.mem_cons_of_mem _ h)) (fun j h => hj j (List.mem_cons_of_mem _ h)) hx.2 hy.2
            hrest]

/-- The machine code of an instruction that can be read begins the machine code of no other one, unless the two are
alike; and a sequence of encodings splits in only one way. -/
theorem encode_uniquely_decodable :
    (∀ i j : Instruction, i.IsReadable → j.IsReadable → ∀ xs ys, i.encode = .ok xs → j.encode = .ok ys →
      (xs <+: ys → xs = ys) ∧ (xs = ys ↔ i.Alike j)) ∧
    ∀ is js : List Instruction, (∀ i ∈ is, i.IsReadable) → (∀ j ∈ js, j.IsReadable) → ∀ xss yss,
      is.mapM encode = .ok xss → js.mapM encode = .ok yss → xss.flatten = yss.flatten → xss = yss := by
  refine ⟨fun i j hi hj xs ys hx hy => ⟨fun ⟨r, hr⟩ => ?_, ?_⟩, fun is js hi hj xss yss hx hy h => ?_⟩
  · exact (encode_append_inj hi.wellFormed hj.wellFormed hx hy (r := r) (s := []) (by simpa using hr)).1
  · exact encode_eq_iff_alike hi.wellFormed hj.wellFormed hx hy
  · exact encodings_flatten_inj (fun i h => (hi i h).wellFormed) (fun j h => (hj j h).wellFormed) (mapM_eq_ok.1 hx)
      (mapM_eq_ok.1 hy) h

/-- Two spellings of one constant are alike. -/
theorem alike_of_same_bytes :
    ∃ i j, Assembly.parse "add rax, -1".toList = .ok i ∧ Assembly.parse "add rax, 0xffffffffffffffff".toList = .ok j ∧
      i ≠ j ∧ i.Alike j := by
  have hi : Assembly.parse "add rax, -1".toList =
      .ok ⟨.add, [.register (.low .rax .qword), .immediate (-1) 64]⟩ := rfl
  have hj : Assembly.parse "add rax, 0xffffffffffffffff".toList =
      .ok ⟨.add, [.register (.low .rax .qword), .immediate 0xffffffffffffffff 64]⟩ := rfl
  refine ⟨_, _, hi, hj, by simp, ?_⟩
  have hbytes := encode_uniquely_decodable.1 _ _ ⟨_, hi⟩ ⟨_, hj⟩ [0x48, 0x83, 0xC0, 0xFF] [0x48, 0x83, 0xC0, 0xFF] rfl
    rfl
  exact hbytes.2.1 rfl

end Instruction

end LongMode

import LongMode.Proofs.Assembly.Shape
import LongMode.Proofs.Untyped.Readers

/-!
# The shape of untyped instructions that are read

What a text that is read may leave behind, said of names and numbers (`Instruction.WellFormed`): which names and widths
registers have, which registers and scales an address is made of, where an immediate may stand and how wide it is.

* `wellFormed_erase_operand`: the erasure of an operand has names that the tables hold, and keeps the shape of an
  address.
* `wellFormed_of_parse`: every instruction that is read has this shape, with types and without.
-/

namespace LongMode.Untyped

/-- The sixteen names that an address may use. -/
def wideNames : List String :=
  ["rax", "rcx", "rdx", "rbx", "rsp", "rbp", "rsi", "rdi", "r8", "r9", "r10", "r11", "r12", "r13", "r14", "r15"]

/-- The names of the views, by their widths. -/
def namesByWidth : List (Nat × List String) :=
  [(64, wideNames),
    (32, ["eax", "ecx", "edx", "ebx", "esp", "ebp", "esi", "edi", "r8d", "r9d", "r10d", "r11d", "r12d", "r13d", "r14d",
      "r15d"]),
    (16, ["ax", "cx", "dx", "bx", "sp", "bp", "si", "di", "r8w", "r9w", "r10w", "r11w", "r12w", "r13w", "r14w", "r15w"]),
    (8, ["al", "cl", "dl", "bl", "spl", "bpl", "sil", "dil", "r8b", "r9b", "r10b", "r11b", "r12b", "r13b", "r14b",
      "r15b", "ah", "ch", "dh", "bh"])]

def vectorNames : List String :=
  ["xmm0", "xmm1", "xmm2", "xmm3", "xmm4", "xmm5", "xmm6", "xmm7", "xmm8", "xmm9", "xmm10", "xmm11", "xmm12", "xmm13",
    "xmm14", "xmm15"]

/-- The name is that of a view or of a vector register of the width. -/
def IsRegister (name : String) (width : Nat) : Prop :=
  (∃ row ∈ namesByWidth, row.1 = width ∧ name ∈ row.2) ∨ name ∈ vectorNames ∧ width = 128

/-- What an access to memory is made of. -/
structure IsAccess (base index : Option String) (scale width : Nat) : Prop where
  base_mem : ∀ x, base = some x → x ∈ wideNames
  index_mem : ∀ x, index = some x → x ∈ wideNames ∧ x ≠ "rsp"
  scale_mem : scale ∈ [1, 2, 4, 8]
  scale_eq : index = none → scale = 1
  scale_ne : base = none → index ≠ none → scale ≠ 1
  width_mem : width ∈ [8, 16, 32, 64]

def Operand.WellFormed : Operand → Prop
  | register name w => IsRegister name w
  | immediate _ _ => True
  | memory base index scale _ w => IsAccess base index scale w

/-- The width of an immediate at a position beside a first operand. -/
def immediateWidth (m : Mnemonic) (position : Nat) (first : Operand) : Nat :=
  if m.isShift = true ∧ position = 1 then 8 else if m = .push then 64 else first.width

structure Instruction.WellFormed (i : Instruction) : Prop where
  count : i.operands.length ∈ i.mnemonic.operandCounts
  operand : ∀ o ∈ i.operands, o.WellFormed
  first : ∀ z w, i.operands[0]? = some (.immediate z w) → i.mnemonic = .push
  immediate : ∀ k z w first, i.operands[k]? = some (.immediate z w) → i.operands[0]? = some first →
    w = immediateWidth i.mnemonic k first

/-! ### Operands -/

theorem isRegister_view (v : View) : IsRegister v.name v.bits := by
  refine Or.inl ?_
  cases v with
  | low c w => cases c <;> cases w <;> decide
  | high b => cases b <;> decide

theorem isRegister_vector (x : VectorRegister) : IsRegister x.name VectorRegister.bits := by
  have hall : ∀ n : Fin 16, (VectorRegister.mk n).name ∈ vectorNames := by decide
  exact Or.inr ⟨hall x.number, rfl⟩

theorem cell_name_mem (c : Cell) : c.name ∈ wideNames := by cases c <;> decide

private theorem name_ne_rsp {c : Cell} (hc : c ≠ .rsp) : c.name ≠ "rsp" := by
  cases c with
  | rsp => exact absurd rfl hc
  | _ => decide

private theorem scale_eq_one {s : Scale} (hs : s.factor = 1) : s = .one := by
  cases s with
  | one => rfl
  | two | four | eight => cases hs

theorem isAccess_erase {l : Location} (h : l.address.WellFormed) :
    IsAccess (l.address.base.map Cell.name) (l.address.index.map Cell.name) l.address.scale.factor l.width.bits where
  base_mem := by
    intro x hx
    obtain ⟨c, -, rfl⟩ := Option.map_eq_some_iff.1 hx
    exact cell_name_mem c
  index_mem := by
    intro x hx
    obtain ⟨c, hc, rfl⟩ := Option.map_eq_some_iff.1 hx
    have hne : c ≠ .rsp := by
      rintro rfl
      exact h.index_ne hc
    exact ⟨cell_name_mem c, name_ne_rsp hne⟩
  scale_mem := by cases l.address.scale <;> decide
  scale_eq := by
    intro hindex
    rw [h.scale_eq (Option.map_eq_none_iff.1 hindex)]
    rfl
  scale_ne := by
    intro hbase hindex hone
    have hnone : l.address.base = none := Option.map_eq_none_iff.1 hbase
    have hsome : l.address.index ≠ none := fun hi => hindex (Option.map_eq_none_iff.2 hi)
    exact h.scale_ne hnone hsome (scale_eq_one hone)
  width_mem := by cases l.width <;> decide

theorem wellFormed_erase_operand {o : LongMode.Operand} (h : ∀ l, o = .memory l → l.address.WellFormed) :
    o.erase.WellFormed := by
  cases o with
  | register v => exact isRegister_view v
  | vector x => exact isRegister_vector x
  | immediate z n => trivial
  | memory l => exact isAccess_erase (h l rfl)

/-! ### Instructions -/

/-- An immediate is left where the library has one. -/
private theorem getElem?_erase_immediate {operands : List LongMode.Operand} {k : Nat} {z : Int} {w : Nat}
    (h : (operands.map LongMode.Operand.erase)[k]? = some (.immediate z w)) : operands[k]? = some (.immediate z w) := by
  rw [List.getElem?_map] at h
  obtain ⟨o, ho, herase⟩ := Option.map_eq_some_iff.1 h
  cases o with
  | immediate z' w' =>
    cases herase
    exact ho
  | register v => cases herase
  | vector x => cases herase
  | memory l => cases herase

theorem wellFormed_erase {i : LongMode.Instruction} (hi : i.WellFormed) : i.erase.WellFormed where
  count := by
    show (i.operands.map LongMode.Operand.erase).length ∈ _
    rw [List.length_map]
    exact hi.count
  operand := by
    intro o ho
    obtain ⟨o', ho', rfl⟩ := List.mem_map.1 ho
    refine wellFormed_erase_operand fun l hl => ?_
    exact hi.address l (hl ▸ ho')
  first := by
    intro z w hfirst
    exact hi.first z w (getElem?_erase_immediate hfirst)
  immediate := by
    intro k z w first hk hfirst
    have hfirst : (i.operands.map LongMode.Operand.erase)[0]? = some first := hfirst
    rw [List.getElem?_map] at hfirst
    obtain ⟨o, ho, rfl⟩ := Option.map_eq_some_iff.1 hfirst
    have hbits := hi.immediate k z w o (getElem?_erase_immediate hk) ho
    rw [immediateWidth, width_erase]
    exact hbits

theorem wellFormed_of_parse {text : List Char} {i : LongMode.Instruction} (h : Assembly.parse text = .ok i) :
    parse text = .ok i.erase ∧ i.erase.WellFormed := by
  have hwell := wellFormed_erase (Assembly.parse_wellFormed h)
  refine ⟨?_, hwell⟩
  rw [parse_erase, h]
  rfl

/-- rsp stands where the index would, and changes places with the base. -/
theorem wellFormed_of_parse_stack_pointer :
    Assembly.parse "Imul R9W, [rax + RSP - 8], 0x10".toList = .ok ⟨.imul, [.register (.low .r9 .word),
        .memory ⟨⟨some .rsp, some .rax, .one, -8⟩, .word⟩, .immediate 16 16]⟩ ∧
      (Instruction.mk .imul [.register "r9w" 16, .memory (some "rsp") (some "rax") 1 (-8) 16,
        .immediate 16 16]).WellFormed := by
  have hparse : Assembly.parse "Imul R9W, [rax + RSP - 8], 0x10".toList = .ok ⟨.imul, [.register (.low .r9 .word),
      .memory ⟨⟨some .rsp, some .rax, .one, -8⟩, .word⟩, .immediate 16 16]⟩ := by rfl
  exact ⟨hparse, (wellFormed_of_parse hparse).2⟩

end LongMode.Untyped

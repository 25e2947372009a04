import LongMode.Instruction.Basic
import LongMode.Memory
import LongMode.Proofs.Outcome
import LongMode.Register.Vector

/-!
# Untyped instructions

The types of the library rule out most of what could go wrong: a view has a cell, a scale a field, a width a name.  Here
an operand is what a text says, a name and some numbers, and every step that needs more than that may get stuck: a table
need not hold a key, a list need not be long enough, a number need not be a byte, a shift may be by a negative count.
Numbers of any length are read and written.

* `Partial`: a computation that succeeds, is refused with an error, or gets stuck.
* `Operand` and `Instruction`: untyped operands and instructions, and how they are written.
* `Operand.erase` and `Instruction.erase`: the untyped forms of what the library reads.  Their names are found
  (`viewNamed_name`, `vectorNamed_name`) and they can be written (`text_erase`).
-/

namespace LongMode

namespace Untyped

/-- Why a step cannot be taken. -/
inductive Stuck
  | missingKey | missingElement | missingName | wrongCount | unreadableNumeral | notByte | tooLarge
  | negativeShift | zeroDivisor
  deriving DecidableEq, Repr

inductive Failure (ε : Type)
  | stuck (reason : Stuck)
  | refused (error : ε)

/-- A computation that may be refused, and may get stuck. -/
abbrev Partial (ε α : Type) := Except (Failure ε) α

section

variable {ε ε' α β κ : Type}

def stuck (reason : Stuck) : Partial ε α := .error (.stuck reason)

def refused (error : ε) : Partial ε α := .error (.refused error)

/-- A computation that does not get stuck. -/
def settled (x : Except ε α) : Partial ε α := x.mapError .refused

/-- Being stuck comes to light; a refusal is an answer. -/
def outcome : Partial ε α → Except Stuck (Except ε α)
  | .ok a => .ok (.ok a)
  | .error (.refused e) => .ok (.error e)
  | .error (.stuck reason) => .error reason

theorem outcome_settled (x : Except ε α) : outcome (settled x) = .ok x := by cases x <;> rfl

@[simp] theorem settled_ok (a : α) : settled (.ok a : Except ε α) = .ok a := rfl

/-! ### Steps that may be stuck -/

/-- The value of a key in a table. -/
def find [BEq κ] (table : List (κ × α)) (key : κ) : Partial ε α :=
  match table.lookup key with
  | some a => .ok a
  | none => stuck .missingKey

def element (l : List α) (k : Nat) : Partial ε α :=
  match l[k]? with
  | some a => .ok a
  | none => stuck .missingElement

def last (l : List α) : Partial ε α :=
  match l.getLast? with
  | some a => .ok a
  | none => stuck .missingElement

/-- The only element. -/
def single : List α → Partial ε α
  | [a] => .ok a
  | _ => stuck .wrongCount

/-- The only two elements. -/
def double : List α → Partial ε (α × α)
  | [a, b] => .ok (a, b)
  | _ => stuck .wrongCount

def shiftLeft (z n : Int) : Partial ε Int := if n < 0 then stuck .negativeShift else .ok (z * 2 ^ n.toNat)

def shiftRight (z n : Int) : Partial ε Int := if n < 0 then stuck .negativeShift else .ok (z / 2 ^ n.toNat)

def quotient (a b : Int) : Partial ε Int := if b = 0 then stuck .zeroDivisor else .ok (a / b)

def byte (z : Int) : Partial ε UInt8 := if 0 ≤ z ∧ z < 256 then .ok (UInt8.ofNat z.toNat) else stuck .notByte

/-- A number in a given number of bytes, the lowest first. -/
def toBytes (z : Int) (size : Nat) : Partial ε (List UInt8) :=
  if 0 ≤ z ∧ z < 256 ^ size then .ok (littleEndian size z.toNat) else stuck .tooLarge

/-- The highest bit of a word. -/
def signBit (width : Nat) : Partial ε Int := shiftLeft 1 ((width : Int) - 1)

def viewNamed (name : String) : Partial ε View := find (View.all.map fun v => (v.name, v)) name

def vectorNamed (name : String) : Partial ε VectorRegister := find (VectorRegister.all.map fun x => (x.name, x)) name

/-- How many operands a mnemonic takes. -/
def operandCounts (m : Mnemonic) : Partial ε (List Nat) := find (Mnemonic.all.map fun m => (m, m.operandCounts)) m

theorem operandCounts_eq (m : Mnemonic) : (operandCounts m : Partial ε (List Nat)) = .ok m.operandCounts := by
  cases m <;> rfl

private theorem mem_views (v : View) : v ∈ View.all := by
  cases v with
  | low c w => cases c <;> cases w <;> decide
  | high b => cases b <;> decide

theorem viewNamed_name (v : View) : (viewNamed v.name : Partial ε View) = .ok v := by
  have hall : ∀ v ∈ View.all, (View.all.map fun v => (v.name, v)).lookup v.name = some v := by decide +kernel
  rw [viewNamed, find, hall v (mem_views v)]

theorem name_view_inj {u v : View} : u.name = v.name ↔ u = v := by
  refine ⟨fun h => ?_, congrArg View.name⟩
  have hu := viewNamed_name (ε := Unit) u
  rw [h, viewNamed_name] at hu
  exact (Except.ok.inj hu).symm

theorem viewNamed_cell (c : Cell) : (viewNamed c.name : Partial ε View) = .ok (.low c .qword) :=
  viewNamed_name (.low c .qword)

theorem vectorNamed_name (x : VectorRegister) : (vectorNamed x.name : Partial ε VectorRegister) = .ok x := by
  have hall : ∀ n : Fin 16,
      (VectorRegister.all.map fun x => (x.name, x)).lookup (VectorRegister.mk n).name = some ⟨n⟩ := by
    decide
  rw [vectorNamed, find, hall x.number]

theorem signBit_of_pos {w : Nat} (h : 0 < w) : (signBit w : Partial ε Int) = .ok (2 ^ (w - 1)) := by
  rw [signBit, shiftLeft, if_neg (by omega), Int.one_mul]
  congr 2
  omega

end

/-! ### Operands and instructions -/

inductive Operand
  | register (name : String) (width : Nat)
  | immediate (value : Int) (width : Nat)
  | memory (base index : Option String) (scale : Nat) (displacement : Int) (width : Nat)
  deriving DecidableEq, Repr

namespace Operand

def width : Operand → Nat
  | register _ w => w
  | immediate _ w => w
  | memory _ _ _ _ w => w

def isRegister : Operand → Bool
  | register .. => true
  | _ => false

def isMemory : Operand → Bool
  | memory .. => true
  | _ => false

def isImmediate : Operand → Bool
  | immediate .. => true
  | _ => false

/-- A register of the width of the vector registers. -/
def isVector : Operand → Bool
  | register _ w => w == VectorRegister.bits
  | _ => false

end Operand

structure Instruction where
  mnemonic : Mnemonic
  operands : List Operand
  deriving DecidableEq, Repr

/-- The keywords of the widths. -/
def sizeNames : List (Nat × String) := [(8, "byte"), (16, "word"), (32, "dword"), (64, "qword")]

def addressText (base index : Option String) (scale : Nat) (displacement : Int) : String :=
  match base.toList ++ (index.map fun x => x ++ "*" ++ toString scale).toList with
  | [] => Text.signedHex displacement
  | terms =>
    let sum := "+".intercalate terms
    if displacement = 0 then sum
    else if displacement < 0 then sum ++ Text.signedHex displacement
    else sum ++ "+" ++ Text.signedHex displacement

namespace Operand

variable {ε : Type}

def text : Operand → Partial ε String
  | register name _ => .ok name
  | immediate z _ => .ok (Text.signedHex z)
  | memory base index scale displacement w => do
    return (← find sizeNames w) ++ " ptr [" ++ addressText base index scale displacement ++ "]"

end Operand

def Instruction.text {ε : Type} (i : Instruction) : Partial ε String :=
  match i.operands with
  | [] => .ok i.mnemonic.name
  | operands => do return i.mnemonic.name ++ " " ++ ", ".intercalate (← operands.mapM Operand.text)

/-- An error with its kind, worded. -/
structure Notice (κ : Type) where
  kind : κ
  text : String
  deriving DecidableEq, Repr

/-- Words an error about an instruction. -/
def Instruction.refuse {κ α : Type} (i : Instruction) (kind : κ) (message : String) : Partial (Notice κ) α := do
  refused ⟨kind, (← i.text) ++ ": " ++ message⟩

end Untyped

/-! ### Erasure -/

def Operand.erase : Operand → Untyped.Operand
  | register v => .register v.name v.bits
  | vector x => .register x.name VectorRegister.bits
  | immediate z n => .immediate z n
  | memory l => .memory (l.address.base.map Cell.name) (l.address.index.map Cell.name) l.address.scale.factor
      l.address.displacement l.width.bits

def Instruction.erase (i : Instruction) : Untyped.Instruction := ⟨i.mnemonic, i.operands.map Operand.erase⟩

namespace Untyped

variable {ε κ α : Type}

theorem erase_immediate (z : Int) (n : Nat) : (LongMode.Operand.immediate z n).erase = .immediate z n := rfl

theorem single_erase {i : LongMode.Instruction} {o : LongMode.Operand} (hi : i.operands = [o]) :
    (single i.erase.operands : Partial ε Operand) = .ok o.erase := by
  rw [LongMode.Instruction.erase, hi]
  rfl

theorem double_erase {i : LongMode.Instruction} {d s : LongMode.Operand} (hi : i.operands = [d, s]) :
    (double i.erase.operands : Partial ε (Operand × Operand)) = .ok (d.erase, s.erase) := by
  rw [LongMode.Instruction.erase, hi]
  rfl

theorem width_erase (o : LongMode.Operand) : o.erase.width = o.bits := by cases o <;> rfl

theorem text_erase_operand (o : LongMode.Operand) : (o.erase.text : Partial ε String) = .ok o.text := by
  cases o with
  | memory l =>
    obtain ⟨⟨base, index, scale, displacement⟩, width⟩ := l
    have hkeyword : (find sizeNames width.bits : Partial ε String) = .ok width.keyword := by cases width <;> rfl
    have haddress : addressText (base.map Cell.name) (index.map Cell.name) scale.factor displacement =
        (Address.mk base index scale displacement).text := by
      cases base <;> cases index <;> rfl
    simp only [Operand.erase, Operand.text, hkeyword, haddress]
    rfl
  | _ => rfl

theorem text_erase (i : LongMode.Instruction) : (i.erase.text : Partial ε String) = .ok i.text := by
  obtain ⟨m, operands⟩ := i
  have hmap : (operands.map Operand.erase).mapM Operand.text =
      (.ok (operands.map LongMode.Operand.text) : Partial ε (List String)) := by
    rw [mapM_eq_ok, List.map_map, List.map_map]
    exact List.map_congr_left fun o _ => text_erase_operand o
  cases operands with
  | nil => rfl
  | cons o rest =>
    rw [List.map_cons] at hmap
    simp only [LongMode.Instruction.erase, Instruction.text, List.map_cons, hmap]
    rfl

theorem refuse_erase (i : LongMode.Instruction) (kind : κ) (message : String) :
    (i.erase.refuse kind message : Partial (Notice κ) α) = refused ⟨kind, i.text ++ ": " ++ message⟩ := by
  rw [Instruction.refuse, text_erase]
  rfl

end Untyped

end LongMode

import LongMode.Arith.Word
import LongMode.Register.Width
import LongMode.Text.Letter

/-!
# Register views

A general-purpose register is a cell of 64 bits.  Sixty-eight names reach its bits: each cell has a view of its low
8, 16, 32 and 64 bits, and the first four cells have a view of bits 8 to 15.

* Reading a view extracts its field from the cell.
* Writing a view of 8 or 16 bits replaces its field only.
* Writing a view of 32 bits clears the upper half of the cell.
* `read_write` says that a view reads back what was stored through it, reduced to its width; `write_lt` that a cell
  stays a number of 64 bits.
-/

namespace LongMode

/-- The sixteen cells, in the order of their hardware numbers. -/
inductive Cell
  | rax | rcx | rdx | rbx | rsp | rbp | rsi | rdi | r8 | r9 | r10 | r11 | r12 | r13 | r14 | r15
  deriving DecidableEq, Repr

namespace Cell

def all : List Cell :=
  [rax, rcx, rdx, rbx, rsp, rbp, rsi, rdi, r8, r9, r10, r11, r12, r13, r14, r15]

def number : Cell → Fin 16
  | rax => 0 | rcx => 1 | rdx => 2 | rbx => 3 | rsp => 4 | rbp => 5 | rsi => 6 | rdi => 7
  | r8 => 8 | r9 => 9 | r10 => 10 | r11 => 11 | r12 => 12 | r13 => 13 | r14 => 14 | r15 => 15

/-- The name of the low view of each width. -/
def viewName : Cell → Width → String
  | rax, w => pick "al" "ax" "eax" "rax" w
  | rcx, w => pick "cl" "cx" "ecx" "rcx" w
  | rdx, w => pick "dl" "dx" "edx" "rdx" w
  | rbx, w => pick "bl" "bx" "ebx" "rbx" w
  | rsp, w => pick "spl" "sp" "esp" "rsp" w
  | rbp, w => pick "bpl" "bp" "ebp" "rbp" w
  | rsi, w => pick "sil" "si" "esi" "rsi" w
  | rdi, w => pick "dil" "di" "edi" "rdi" w
  | r8, w => pick "r8b" "r8w" "r8d" "r8" w
  | r9, w => pick "r9b" "r9w" "r9d" "r9" w
  | r10, w => pick "r10b" "r10w" "r10d" "r10" w
  | r11, w => pick "r11b" "r11w" "r11d" "r11" w
  | r12, w => pick "r12b" "r12w" "r12d" "r12" w
  | r13, w => pick "r13b" "r13w" "r13d" "r13" w
  | r14, w => pick "r14b" "r14w" "r14d" "r14" w
  | r15, w => pick "r15b" "r15w" "r15d" "r15" w
where
  pick (b w d q : String) : Width → String
    | .byte => b
    | .word => w
    | .dword => d
    | .qword => q

def name (c : Cell) : String := c.viewName .qword

theorem number_inj {c d : Cell} : c.number = d.number ↔ c = d := by
  cases c <;> cases d <;> simp [number]

end Cell

/-- The views of bits 8 to 15. -/
inductive HighByte
  | ah | ch | dh | bh
  deriving DecidableEq, Repr

namespace HighByte

def all : List HighByte := [ah, ch, dh, bh]

def cell : HighByte → Cell
  | ah => .rax
  | ch => .rcx
  | dh => .rdx
  | bh => .rbx

def name : HighByte → String
  | ah => "ah"
  | ch => "ch"
  | dh => "dh"
  | bh => "bh"

end HighByte

/-- A named window onto a cell. -/
inductive View
  | low (cell : Cell) (width : Width)
  | high (byte : HighByte)
  deriving DecidableEq, Repr

namespace View

def all : List View :=
  Cell.all.flatMap (fun c => Width.all.map (low c)) ++ HighByte.all.map high

def cell : View → Cell
  | low c _ => c
  | high b => b.cell

def width : View → Width
  | low _ w => w
  | high _ => .byte

def bits (v : View) : Nat := v.width.bits

/-- The position of the view's lowest bit in the cell. -/
def shift : View → Nat
  | low _ _ => 0
  | high _ => 8

def name : View → String
  | low c w => c.viewName w
  | high b => b.name

/-- The view that a text names, in any letter case. -/
def ofName? (s : List Char) : Option View := all.find? (fun v => Text.spells s v.name)

def isHighByte : View → Bool
  | low _ _ => false
  | high _ => true

/-- The register number takes an extension bit. -/
def isExtended (v : View) : Bool := 8 ≤ v.cell.number.val

/-- The low bytes of rsp, rbp, rsi and rdi share their numbers with the high bytes, and only a REX byte selects
them. -/
def needsRex : View → Bool
  | low c .byte => 4 ≤ c.number.val && c.number.val < 8
  | _ => false

/-- The largest value of the view. -/
def mask (v : View) : Nat := 2 ^ v.bits - 1

def read (v : View) (cell : Nat) : Nat := cell / 2 ^ v.shift % 2 ^ v.bits

/-- The cell with the field of `bits` bits at `shift` replaced. -/
def replaceField (cell shift bits value : Nat) : Nat :=
  cell / 2 ^ (shift + bits) * 2 ^ (shift + bits) + value * 2 ^ shift + cell % 2 ^ shift

/-- The new cell after an integer is stored through the view. -/
def write (v : View) (cell : Nat) (value : Int) : Nat :=
  let field := truncate v.bits value
  match v.width with
  | .qword => field
  | .dword => field
  | _ => replaceField (cell % 2 ^ 64) v.shift v.bits field

theorem read_lt (v : View) (cell : Nat) : v.read cell < 2 ^ v.bits := Nat.mod_lt _ (Nat.two_pow_pos _)

theorem write_lt (v : View) (cell : Nat) (value : Int) : v.write cell value < 2 ^ 64 := by
  have h := truncate_lt v.bits value
  rcases v with ⟨c, _ | _ | _ | _⟩ | b <;>
    simp only [write, width, bits, Width.bits, Width.bytes, shift, replaceField] at h ⊢ <;> omega

theorem read_write (v : View) (cell : Nat) (value : Int) : v.read (v.write cell value) = truncate v.bits value := by
  have h := truncate_lt v.bits value
  rcases v with ⟨c, _ | _ | _ | _⟩ | b <;>
    simp only [read, write, width, bits, Width.bits, Width.bytes, shift, replaceField] at h ⊢ <;> omega

end View

end LongMode

import LongMode.Register.Vector
import LongMode.Register.View
import LongMode.Text.Numeral

/-!
# Operands

An operand is a register view, a vector register, an immediate with the width that it is applied at, or a location in
memory with the width of the access.  Nothing here is checked: a displacement or an immediate may be any integer.
`Operand.text` writes an operand in canonical form.
-/

namespace LongMode

/-- The factor of an index register. -/
inductive Scale
  | one | two | four | eight
  deriving DecidableEq, Repr

namespace Scale

def all : List Scale := [one, two, four, eight]

def factor : Scale → Nat
  | one => 1
  | two => 2
  | four => 4
  | eight => 8

def ofFactor? (n : Nat) : Option Scale := all.find? fun s => s.factor == n

end Scale

/-- The sum of a base, a scaled index and a displacement. -/
structure Address where
  base : Option Cell
  index : Option Cell
  scale : Scale
  displacement : Int
  deriving DecidableEq, Repr

namespace Address

/-- The registers of an address, as they are written. -/
def registerTerms (a : Address) : List String :=
  (a.base.map Cell.name).toList ++ (a.index.map fun c => c.name ++ "*" ++ toString a.scale.factor).toList

/-- The displacement is left out when it is zero and a register is there. -/
def text (a : Address) : String :=
  match a.registerTerms with
  | [] => Text.signedHex a.displacement
  | terms =>
    let sum := "+".intercalate terms
    if a.displacement = 0 then sum
    else if a.displacement < 0 then sum ++ Text.signedHex a.displacement
    else sum ++ "+" ++ Text.signedHex a.displacement

end Address

/-- A location in memory and the width of the access. -/
structure Location where
  address : Address
  width : Width
  deriving DecidableEq, Repr

def Location.text (l : Location) : String := l.width.keyword ++ " ptr [" ++ l.address.text ++ "]"

inductive Operand
  | register (view : View)
  | vector (register : VectorRegister)
  | immediate (value : Int) (bits : Nat)
  | memory (location : Location)
  deriving DecidableEq, Repr

namespace Operand

/-- The width of an operand. -/
def bits : Operand → Nat
  | register v => v.bits
  | vector _ => VectorRegister.bits
  | immediate _ n => n
  | memory l => l.width.bits

def isVector : Operand → Bool
  | vector _ => true
  | _ => false

def isMemory : Operand → Bool
  | memory _ => true
  | _ => false

def isImmediate : Operand → Bool
  | immediate _ _ => true
  | _ => false

def text : Operand → String
  | register v => v.name
  | vector x => x.name
  | immediate value _ => Text.signedHex value
  | memory l => l.text

end Operand

/-- Where a general-purpose value can be stored. -/
inductive Place
  | register (view : View)
  | memory (location : Location)
  deriving DecidableEq, Repr

namespace Place

def width : Place → Width
  | register v => v.width
  | memory l => l.width

/-- al, ax, eax or rax. -/
def isAccumulator : Place → Bool
  | register (.low .rax _) => true
  | _ => false

end Place

/-- Where a general-purpose value can come from. -/
inductive Source
  | register (view : View)
  | immediate (value : Int) (bits : Nat)
  | memory (location : Location)
  deriving DecidableEq, Repr

def Place.source : Place → Source
  | register v => .register v
  | memory l => .memory l

end LongMode

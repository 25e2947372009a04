import LongMode.MachineCode.Error
import LongMode.MachineCode.Layout

/-!
# Filling the fields

How registers, addresses and operand widths determine REX, ModRM, SIB and the displacement.

* The low three bits of a register number go into a field and the fourth into REX; ah to bh have the numbers 4 to 7.
* A displacement takes no byte if it is zero, else one byte if it fits, else four.  Base number 5 always has a
  displacement, base number 4 and every index need a SIB byte, and an address without a base has four bytes of
  displacement.
* No REX byte can stand beside ah, ch, dh or bh.
-/

namespace LongMode

namespace View

/-- The number of the register in its field, before the low three bits are taken. -/
def hardwareNumber : View → Nat
  | low c _ => c.number.val
  | high b => b.cell.number.val + 4

def field (v : View) : Fin 8 := Fin.ofNat 8 v.hardwareNumber

end View

namespace Cell

def field (c : Cell) : Fin 8 := Fin.ofNat 8 c.number.val

def isExtended (c : Cell) : Bool := 8 ≤ c.number.val

end Cell

def Scale.field : Scale → Fin 4
  | one => 0
  | two => 1
  | four => 2
  | eight => 3

namespace MachineCode

/-- The r/m field: a register, or an address. -/
inductive RmOperand
  | register (view : View)
  | address (a : Address)
  deriving DecidableEq, Repr

/-- The reg field: a register, or a digit that extends the opcode. -/
inductive RegOperand
  | register (view : View)
  | digit (d : Fin 8)
  deriving DecidableEq, Repr

namespace RmOperand

def ofPlace : Place → RmOperand
  | .register v => register v
  | .memory l => address l.address

def views : RmOperand → List View
  | register v => [v]
  | address _ => []

/-- The extension bits X and B. -/
def extensions : RmOperand → Bool × Bool
  | register v => (false, v.isExtended)
  | address a => (a.index.any Cell.isExtended, a.base.any Cell.isExtended)

end RmOperand

namespace RegOperand

def views : RegOperand → List View
  | register v => [v]
  | digit _ => []

def field : RegOperand → Fin 8
  | register v => v.field
  | digit d => d

def isExtended : RegOperand → Bool
  | register v => v.isExtended
  | digit _ => false

end RegOperand

/-- Selects 64-bit operands, for an instruction whose operands are not of that width by default. -/
def selectsQword (width : Width) (qwordByDefault : Bool) : Bool := width == .qword && !qwordByDefault

/-- REX for the given bits and registers; it is left out where nothing needs it. -/
def rexFor (rex : Rex) (views : List View) : Except EncodeCause (Option Rex) :=
  if rex.w || rex.r || rex.x || rex.b || views.any View.needsRex then
    if views.any View.isHighByte then .error .highByteWithRex else .ok (some rex)
  else .ok none

/-- The mode and the bytes of a displacement from a base with the given field. -/
def displacementFor (base : Fin 8) (disp : Int) : Fin 4 × List UInt8 :=
  if disp = 0 ∧ base ≠ 5 then (0, [])
  else if fitsSigned 8 disp then (1, signedBytes 1 disp)
  else (2, signedBytes 4 disp)

/-- Index field 4 says that there is no index. -/
def indexField (index : Option Cell) : Fin 8 := (index.map Cell.field).getD 4

def addressModRm (reg : Fin 8) (a : Address) : Except EncodeCause ModRm :=
  if !fitsSigned 32 a.displacement then .error (.displacement a.displacement)
  else match a.base with
    | none => .ok ⟨0, reg, 4, some ⟨a.scale.field, indexField a.index, 5⟩, signedBytes 4 a.displacement⟩
    | some base =>
      let (mode, disp) := displacementFor base.field a.displacement
      if a.index = none ∧ base.field ≠ 4 then .ok ⟨mode, reg, base.field, none, disp⟩
      else .ok ⟨mode, reg, 4, some ⟨a.scale.field, indexField a.index, base.field⟩, disp⟩

def modRm (reg : Fin 8) : RmOperand → Except EncodeCause ModRm
  | .register v => .ok ⟨3, reg, v.field, none, []⟩
  | .address a => addressModRm reg a

/-- What an instruction of one form has besides its operands. -/
structure Form where
  opcode : List UInt8
  width : Width
  qwordByDefault : Bool
  immediate : List UInt8
  deriving DecidableEq, Repr

/-- A form whose operands default to 32 bits, without an immediate. -/
def form (opcode : List UInt8) (width : Width) : Form := ⟨opcode, width, false, []⟩

def Form.withImmediate (f : Form) (bytes : List UInt8) : Form := { f with immediate := bytes }

/-- A form with a ModRM byte. -/
def Form.withModRm (f : Form) (reg : RegOperand) (rm : RmOperand) : Except EncodeCause Code := do
  let (x, b) := rm.extensions
  let rex ← rexFor ⟨selectsQword f.width f.qwordByDefault, reg.isExtended, x, b⟩ (rm.views ++ reg.views)
  let m ← modRm reg.field rm
  return ⟨f.width == .word, rex, f.opcode, some m, f.immediate⟩

/-- A form whose last opcode byte holds a register. -/
def Form.withOpcodeRegister (f : Form) (v : View) : Except EncodeCause Code := do
  let rex ← rexFor ⟨selectsQword f.width f.qwordByDefault, false, false, v.isExtended⟩ [v]
  let last := f.opcode.getLast?.toList.map fun b => b + UInt8.ofNat v.field.val
  return ⟨f.width == .word, rex, f.opcode.dropLast ++ last, none, f.immediate⟩

/-- A form whose operands are all implied. -/
def Form.implied (f : Form) : Except EncodeCause Code := do
  let rex ← rexFor ⟨selectsQword f.width f.qwordByDefault, false, false, false⟩ []
  return ⟨f.width == .word, rex, f.opcode, none, f.immediate⟩

end MachineCode

end LongMode

import LongMode.Memory
import LongMode.Text.Numeral

/-!
# Layout of machine code

The bytes of one instruction stand in a fixed order:

    66, REX, opcode, ModRM, SIB, displacement, immediate

Every part but the opcode may be missing.  66 selects 16-bit operands.  REX holds four bits: W selects 64-bit operands,
R, X and B extend the register numbers of the reg field, the index and the r/m field or base.
-/

namespace LongMode

structure Rex where
  w : Bool
  r : Bool
  x : Bool
  b : Bool
  deriving DecidableEq, Repr

def Rex.byte (rex : Rex) : UInt8 :=
  UInt8.ofNat (0x40 + 8 * rex.w.toNat + 4 * rex.r.toNat + 2 * rex.x.toNat + rex.b.toNat)

/-- The scale, index and base of an address. -/
structure Sib where
  scale : Fin 4
  index : Fin 8
  base : Fin 8
  deriving DecidableEq, Repr

def Sib.byte (s : Sib) : UInt8 := UInt8.ofNat (64 * s.scale.val + 8 * s.index.val + s.base.val)

structure ModRm where
  mode : Fin 4
  reg : Fin 8
  rm : Fin 8
  sib : Option Sib
  displacement : List UInt8
  deriving DecidableEq, Repr

def ModRm.bytes (m : ModRm) : List UInt8 :=
  UInt8.ofNat (64 * m.mode.val + 8 * m.reg.val + m.rm.val) :: ((m.sib.map Sib.byte).toList ++ m.displacement)

/-- The parts of an encoded instruction. -/
structure Code where
  operandSize : Bool
  rex : Option Rex
  opcode : List UInt8
  modRm : Option ModRm
  immediate : List UInt8
  deriving DecidableEq, Repr

namespace Code

def bytes (c : Code) : List UInt8 :=
  (if c.operandSize then [0x66] else []) ++ (c.rex.map Rex.byte).toList ++ c.opcode ++
    (match c.modRm with
      | some m => m.bytes
      | none => []) ++
    c.immediate

end Code

/-- The low `n` bytes of an integer in two's complement, the lowest first. -/
def signedBytes (n : Nat) (z : Int) : List UInt8 := littleEndian n (truncate (8 * n) z)

/-- Two hexadecimal digits for each byte, with spaces between. -/
def formatBytes (bytes : List UInt8) : String :=
  " ".intercalate (bytes.map fun b => Text.padLeft 2 '0' (Text.hexDigits b.toNat))

end LongMode

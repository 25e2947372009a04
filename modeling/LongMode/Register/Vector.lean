import LongMode.Instances
import LongMode.Text.Letter

/-!
# Vector registers

The sixteen registers of 128 bits.  A value splits into four lanes of 32 bits, the lowest lane first;
`ofLanes_lanes` says that the lanes hold the whole value.
-/

namespace LongMode

structure VectorRegister where
  number : Fin 16
  deriving DecidableEq, Repr

namespace VectorRegister

def bits : Nat := 128

def all : List VectorRegister := (List.finRange 16).map mk

def name (x : VectorRegister) : String := "xmm" ++ toString x.number.val

theorem number_inj {x y : VectorRegister} : x.number = y.number ↔ x = y := by
  cases x
  cases y
  simp

/-- The vector register that a text names, in any letter case. -/
def ofName? (s : List Char) : Option VectorRegister := all.find? (fun x => Text.spells s x.name)

end VectorRegister

/-- The four lanes of a value, the lowest first. -/
def lanes (value : Nat) : List Nat := (List.range 4).map fun i => value / 2 ^ (32 * i) % 2 ^ 32

/-- The value with the given lanes, the lowest first. -/
def ofLanes : List Nat → Nat
  | [] => 0
  | lane :: rest => lane + 2 ^ 32 * ofLanes rest

theorem ofLanes_lanes (value : Nat) : ofLanes (lanes value) = value % 2 ^ 128 := by
  show value / 2 ^ 0 % 2 ^ 32 + 2 ^ 32 * (value / 2 ^ 32 % 2 ^ 32 + 2 ^ 32 * (value / 2 ^ 64 % 2 ^ 32 +
    2 ^ 32 * (value / 2 ^ 96 % 2 ^ 32 + 2 ^ 32 * 0))) = value % 2 ^ 128
  omega

end LongMode

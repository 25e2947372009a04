import LongMode.Arith.Product
import LongMode.Arith.Scan
import LongMode.Execution.Operation
import LongMode.Execution.Transaction

/-!
# Semantics

The effect of every operation on a transaction.

* An effective address is a sum modulo `2 ^ 64`; an access at it does not wrap around.
* Operands are read before anything is written, and an effective address counts what is written before it.
* A write to a 32-bit register clears the upper half of its cell, also where a conditional move is not taken and where
  a shift by zero leaves the value alone.
* A division by zero, and a quotient that does not fit the accumulator, stop the operation.
-/

namespace LongMode

/-- Why an operation stops. -/
inductive Stop
  | outOfBounds (access : OutOfBounds)
  | divideByZero
  | divideOverflow
  deriving DecidableEq, Repr

def Stop.fault (i : Instruction) : Stop → Fault
  | outOfBounds a => .outOfBounds a
  | divideByZero => .divideByZero i
  | divideOverflow => .divideOverflow i

namespace Transaction

/-! ### Operands -/

def effectiveAddress (t : Transaction) (a : Address) : Nat :=
  let base : Nat := (a.base.map t.cell).getD 0
  let index : Nat := (a.index.map fun c => t.cell c * a.scale.factor).getD 0
  truncate 64 (a.displacement + base + index)

def readLocation (t : Transaction) (l : Location) : Except Stop Nat :=
  (t.readInteger (t.effectiveAddress l.address) l.width.bytes).mapError .outOfBounds

def writeLocation (t : Transaction) (l : Location) (value : Int) : Except Stop Transaction :=
  (t.writeInteger (t.effectiveAddress l.address) l.width.bytes value).mapError .outOfBounds

def read (t : Transaction) : Source → Except Stop Nat
  | .register v => .ok (t.readView v)
  | .immediate z bits => .ok (truncate bits z)
  | .memory l => t.readLocation l

def readPlace (t : Transaction) (p : Place) : Except Stop Nat := t.read p.source

def write (t : Transaction) (p : Place) (value : Int) : Except Stop Transaction :=
  match p with
  | .register v => .ok (t.writeView v value)
  | .memory l => t.writeLocation l value

/-! ### The accumulator -/

/-- The view of the low half of a product, and of a quotient. -/
def lowHalf (w : Width) : View := .low .rax w

/-- The view of the high half of a product, and of a remainder, for operands wider than a byte. -/
def highHalf (w : Width) : View := .low .rdx w

/-- A high and a low half go to rdx and rax, for bytes to ah and al. -/
def writeHalves (t : Transaction) (w : Width) (high low : Nat) : Transaction :=
  if w = .byte then t.writeView (.low .rax .word) (high * 2 ^ 8 + low : Nat)
  else (t.writeView (lowHalf w) low).writeView (highHalf w) high

/-- The number that a division divides. -/
def readHalves (t : Transaction) (w : Width) : Nat :=
  if w = .byte then t.readView (.low .rax .word)
  else t.readView (highHalf w) * 2 ^ w.bits + t.readView (lowHalf w)

/-! ### Groups of operations -/

/-- Stores a result and its flags. -/
def finish (t : Transaction) (p : Place) (r : Flagged) : Except Stop Transaction := do
  return (← t.write p r.value).setFlags r.flags

/-- Replaces a value by a function of it. -/
def update (t : Transaction) (p : Place) (f : Nat → Flagged) : Except Stop Transaction := do
  t.finish p (f (← t.readPlace p))

/-- The product of the accumulator and a source. -/
def multiplyHalves (t : Transaction) (p : Place) (f : Nat → Nat → Nat → Product) : Except Stop Transaction := do
  let w := p.width
  let r := f w.bits (t.readView (lowHalf w)) (← t.readPlace p)
  return (t.writeHalves w r.high r.low).setFlags r.flags

/-- Quotient and remainder of the two halves by a source. -/
def divideHalves (t : Transaction) (p : Place) (f : Nat → Nat → Nat → Division) : Except Stop Transaction := do
  let w := p.width
  let divisor ← t.readPlace p
  if divisor = 0 then .error .divideByZero
  let r := f w.bits (t.readHalves w) divisor
  match r.quotient with
  | none => .error .divideOverflow
  | some quotient => return t.writeHalves w r.remainder quotient

/-- A value moved by a counted number of bits.  A reduced count of zero writes 32-bit registers only. -/
def moveBits (t : Transaction) (p : Place) (count : Source) (f : Nat → Nat → Nat → Flagged) :
    Except Stop Transaction := do
  let value ← t.readPlace p
  let n ← t.read count
  if maskedCount p.width.bits n = 0 then
    match p with
    | .register v => if v.width = .dword then return t.writeView v value else return t
    | .memory _ => return t
  else t.finish p (f p.width.bits value n)

def Bitwise.apply : Bitwise → Nat → Nat → Nat
  | .and, a, b => a &&& b
  | .or, a, b => a ||| b
  | .xor, a, b => a ^^^ b

def Scan.apply : Scan → Nat → Option Nat
  | .forward, n => lowestSetBit? n
  | .reverse, n => highestSetBit? n

/-- Lane by lane, without a carry from one lane to the next. -/
def addLanes (a b : Nat) : Nat := ofLanes (List.zipWith (fun x y => (x + y) % 2 ^ 32) (lanes a) (lanes b))

end Transaction

open Transaction

/-- Performs an operation. -/
def Operation.run (t : Transaction) : Operation → Except Stop Transaction
  | nothing => .ok t
  | move d s => do t.write d (← t.read s)
  | extend d s => do return t.writeView d (← t.readPlace s)
  | extendSigned d s => do return t.writeView d (signed s.width.bits (← t.readPlace s))
  | loadAddress d a => .ok (t.writeView d (t.effectiveAddress a))
  | exchange p q => do
    let a ← t.readPlace p
    let b ← t.readPlace q
    (← t.write p b).write q a
  | push s => do
    let value ← t.read s
    let top := truncate 64 ((t.readView (.low .rsp .qword) : Int) - 8)
    let t' ← (t.writeInteger top 8 value).mapError .outOfBounds
    return t'.writeView (.low .rsp .qword) top
  | pop d => do
    let top := t.readView (.low .rsp .qword)
    let value ← (t.readInteger top 8).mapError .outOfBounds
    (t.writeView (.low .rsp .qword) (top + 8)).write d value
  | moveIf zero d s => do
    let value ← t.readPlace s
    if t.flag .zero = zero then return t.writeView d value
    else if d.width = .dword then return t.writeView d (t.readView d)
    else return t
  | spreadSign w =>
    .ok (t.writeView (highHalf w) (if topBit w.bits (t.readView (lowHalf w)) then 2 ^ w.bits - 1 else 0))
  | add withCarry d s => do
    let a ← t.readPlace d
    t.finish d (Word.add d.width.bits a (← t.read s) (withCarry && t.flag .carry).toNat)
  | subtract withBorrow d s => do
    let a ← t.readPlace d
    t.finish d (Word.sub d.width.bits a (← t.read s) (withBorrow && t.flag .carry).toNat)
  | compare d s => do
    let a ← t.readPlace d
    return t.setFlags (Word.sub d.width.bits a (← t.read s) 0).flags
  | increment d => t.update d (Word.increment d.width.bits)
  | decrement d => t.update d (Word.decrement d.width.bits)
  | negate d => t.update d (Word.negate d.width.bits)
  | complement d => t.update d fun a => ⟨truncate d.width.bits (-(a : Int) - 1), FlagEffect.none⟩
  | multiply s => t.multiplyHalves s Word.multiply
  | multiplySigned s => t.multiplyHalves s Word.multiplySigned
  | multiplyInto d s r => do
    let a ← t.read s
    let p := Word.multiplySigned d.bits a (← t.read r)
    return (t.writeView d p.low).setFlags p.flags
  | divide s => t.divideHalves s Word.divide
  | divideSigned s => t.divideHalves s Word.divideSigned
  | bitwise op d s => do
    let a ← t.readPlace d
    let result := Bitwise.apply op a (← t.read s)
    t.finish d ⟨result, Word.logicFlags d.width.bits result⟩
  | test d s => do
    let a ← t.readPlace d
    return t.setFlags (Word.logicFlags d.width.bits (a &&& (← t.read s)))
  | shift k d c => t.moveBits d c k.apply
  | rotate k d c => t.moveBits d c k.apply
  | scan k d s => do
    match Scan.apply k (← t.readPlace s) with
    | none => return t.setFlags { FlagEffect.none with zero := some true }
    | some i => return (t.writeView d i).setFlags { FlagEffect.none with zero := some false }
  | addPacked d s => .ok (t.writeVector d (addLanes (t.readVector d) (t.readVector s)))

end LongMode

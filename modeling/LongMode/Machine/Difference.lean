import LongMode.Machine.Basic

/-!
# Differences between machines

`Machine.changes` lists what one machine holds that another did not: cells, vector registers, flags and the counter by
their new values, memory by the maximal runs of bytes that differ, in ascending order.
-/

namespace LongMode

/-- New values, each part in its own order. -/
structure Changes where
  registers : List (Cell × Nat)
  vectors : List (VectorRegister × Nat)
  flags : List (Flag × Bool)
  rip : Option Int
  memory : List (Nat × List UInt8)
  deriving DecidableEq, Repr

namespace Memory

/-- Puts a byte in front of the runs above its address. -/
def extendRuns (a : Nat) (value : UInt8) : List (Nat × List UInt8) → List (Nat × List UInt8)
  | (start, bytes) :: rest =>
    if start = a + 1 then (a, value :: bytes) :: rest else (a, [value]) :: (start, bytes) :: rest
  | [] => [(a, [value])]

/-- The runs of differing bytes below an address, in front of those above it. -/
def differingRuns (before after : Memory) : Nat → List (Nat × List UInt8) → List (Nat × List UInt8)
  | 0, runs => runs
  | a + 1, runs =>
    let value := after.byte a
    differingRuns before after a (if before.byte a = value then runs else extendRuns a value runs)

end Memory

/-- What `after` holds and `before` did not. -/
def Machine.changes (before after : Machine) : Changes where
  registers := (Cell.all.map fun c => (c, after.cell c)).filter fun p => before.cell p.1 != p.2
  vectors := (VectorRegister.all.map fun x => (x, after.readVector x)).filter fun p => before.readVector p.1 != p.2
  flags := (Flag.all.map fun f => (f, after.flags.get f)).filter fun p => before.flags.get p.1 != p.2
  rip := if before.rip = after.rip then none else some after.rip
  memory := Memory.differingRuns before.memory after.memory (min before.memory.size after.memory.size) []

end LongMode

import LongMode.Execution.Semantics

/-!
# The handler registry

Which mnemonics execute, and how.  The standard registry has a handler for every mnemonic and is frozen: nothing can be
registered in it.  Execution looks up the handler, checks the operands, runs the handler on a transaction and commits
it; a fault at any point leaves the machine as it was.
-/

namespace LongMode

/-- What a mnemonic does with an instruction on a transaction. -/
abbrev Handler := Instruction → Transaction → Except Fault Transaction

namespace Handler

/-- Finds the operation of the instruction and performs it. -/
def standard : Handler := fun i t => do
  let op ← i.operation.mapError (Fault.refused i)
  (op.run t).mapError (Stop.fault i)

/-- Changes nothing. -/
def idle : Handler := fun _ t => .ok t

end Handler

/-- Why a handler is not registered. -/
inductive RegistrationError
  | frozen
  | taken (mnemonic : Mnemonic)
  deriving DecidableEq, Repr

def RegistrationError.message : RegistrationError → String
  | frozen => "Cannot register primitives: registry is frozen"
  | taken m => "Primitive already registered: Mnemonic." ++ m.name.toUpper

structure Registry where
  handlers : List (Mnemonic × Handler)
  isFrozen : Bool

namespace Registry

def standard : Registry := ⟨Mnemonic.all.map fun m => (m, Handler.standard), true⟩

def freeze (r : Registry) : Registry := { r with isFrozen := true }

def thaw (r : Registry) : Registry := { r with isFrozen := false }

def register (r : Registry) (m : Mnemonic) (h : Handler) : Except RegistrationError Registry :=
  if r.isFrozen then .error .frozen
  else if (r.handlers.lookup m).isSome then .error (.taken m)
  else .ok { r with handlers := r.handlers ++ [(m, h)] }

def remove (r : Registry) (m : Mnemonic) : Registry := { r with handlers := r.handlers.filter fun p => p.1 != m }

/-- The names of the mnemonics that execute, in alphabetical order. -/
def names (r : Registry) : List String := (r.handlers.map fun p => p.1.name).mergeSort fun a b => a ≤ b

def execute (r : Registry) (m : Machine) (i : Instruction) : Except Fault Machine :=
  match r.handlers.lookup i.mnemonic with
  | none => .error (.noHandler i.mnemonic)
  | some h => do
    i.check.mapError (Fault.refused i)
    return (← h i (Transaction.start m)).commit

end Registry

/-- Executes one instruction. -/
def Machine.execute (m : Machine) (i : Instruction) : Except Fault Machine := Registry.standard.execute m i

end LongMode

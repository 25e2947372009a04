import LongMode.Register.Vector
import LongMode.Register.View

/-!
# Register names

A name, in any letter case, stands for a view of a cell or for a vector register; no name stands for both.
-/

namespace LongMode

/-- A name of no register. -/
structure UnknownRegister where
  name : String
  deriving DecidableEq, Repr

def UnknownRegister.message (e : UnknownRegister) : String := "Invalid register: " ++ e.name

/-- What a register name stands for. -/
inductive RegisterName
  | view (v : View)
  | vector (x : VectorRegister)
  deriving DecidableEq, Repr

namespace RegisterName

def ofText? (s : List Char) : Option RegisterName :=
  match VectorRegister.ofName? s with
  | some x => some (vector x)
  | none => (View.ofName? s).map view

def find (name : String) : Except UnknownRegister RegisterName :=
  match ofText? name.toList with
  | some r => .ok r
  | none => .error ⟨name⟩

/-- The view that a name stands for; vector registers have none. -/
def findView (name : String) : Except UnknownRegister View :=
  match View.ofName? name.toList with
  | some v => .ok v
  | none => .error ⟨name⟩

end RegisterName

end LongMode

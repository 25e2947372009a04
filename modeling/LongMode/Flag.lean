import LongMode.Instances

/-!
# Condition flags

Six flags, in the order of their bits in the flags register.  An instruction defines some of them and leaves the
others alone; a `FlagEffect` holds the new value of each flag that it defines.
-/

namespace LongMode

inductive Flag
  | carry | parity | adjust | zero | sign | overflow
  deriving DecidableEq, Repr

namespace Flag

def all : List Flag := [carry, parity, adjust, zero, sign, overflow]

def name : Flag → String
  | carry => "CF"
  | parity => "PF"
  | adjust => "AF"
  | zero => "ZF"
  | sign => "SF"
  | overflow => "OF"

/-- The position in the flags register. -/
def bit : Flag → Nat
  | carry => 0
  | parity => 2
  | adjust => 4
  | zero => 6
  | sign => 7
  | overflow => 11

def ofName? (s : String) : Option Flag := all.find? (fun f => f.name == s)

end Flag

structure Flags where
  carry : Bool
  parity : Bool
  adjust : Bool
  zero : Bool
  sign : Bool
  overflow : Bool
  deriving DecidableEq, Repr

namespace Flags

def clear : Flags := ⟨false, false, false, false, false, false⟩

def get (s : Flags) : Flag → Bool
  | .carry => s.carry
  | .parity => s.parity
  | .adjust => s.adjust
  | .zero => s.zero
  | .sign => s.sign
  | .overflow => s.overflow

def set (s : Flags) (f : Flag) (value : Bool) : Flags :=
  match f with
  | .carry => { s with carry := value }
  | .parity => { s with parity := value }
  | .adjust => { s with adjust := value }
  | .zero => { s with zero := value }
  | .sign => { s with sign := value }
  | .overflow => { s with overflow := value }

@[simp] theorem get_set (s : Flags) (f g : Flag) (value : Bool) :
    (s.set f value).get g = if f = g then value else s.get g := by
  cases f <;> cases g <;> rfl

@[ext] theorem ext_get {s t : Flags} (h : ∀ f, s.get f = t.get f) : s = t := by
  obtain ⟨a, b, c, d, e, f⟩ := s
  obtain ⟨a', b', c', d', e', f'⟩ := t
  have h1 := h .carry; have h2 := h .parity; have h3 := h .adjust
  have h4 := h .zero; have h5 := h .sign; have h6 := h .overflow
  simp_all [get]

/-- The flags register.  Bit 1 is reserved and always set. -/
def register (s : Flags) : Nat :=
  2 + (Flag.all.map fun f => if s.get f then 2 ^ f.bit else 0).sum

end Flags

/-- The flags that an instruction defines, with their new values. -/
structure FlagEffect where
  carry : Option Bool
  parity : Option Bool
  adjust : Option Bool
  zero : Option Bool
  sign : Option Bool
  overflow : Option Bool
  deriving DecidableEq, Repr

namespace FlagEffect

/-- No flag is defined. -/
def none : FlagEffect := ⟨.none, .none, .none, .none, .none, .none⟩

def get (e : FlagEffect) : Flag → Option Bool
  | .carry => e.carry
  | .parity => e.parity
  | .adjust => e.adjust
  | .zero => e.zero
  | .sign => e.sign
  | .overflow => e.overflow

/-- The later effect wins on each flag that it defines. -/
def followedBy (e later : FlagEffect) : FlagEffect :=
  ⟨later.carry.or e.carry, later.parity.or e.parity, later.adjust.or e.adjust, later.zero.or e.zero,
    later.sign.or e.sign, later.overflow.or e.overflow⟩

def apply (e : FlagEffect) (s : Flags) : Flags :=
  ⟨e.carry.getD s.carry, e.parity.getD s.parity, e.adjust.getD s.adjust, e.zero.getD s.zero,
    e.sign.getD s.sign, e.overflow.getD s.overflow⟩

@[simp] theorem get_apply (e : FlagEffect) (s : Flags) (f : Flag) :
    (e.apply s).get f = (e.get f).getD (s.get f) := by
  cases f <;> rfl

@[simp] theorem get_followedBy (e later : FlagEffect) (f : Flag) :
    (e.followedBy later).get f = (later.get f).or (e.get f) := by
  cases f <;> rfl

end FlagEffect

end LongMode

import LongMode.Instances

/-!
# Register banks

Sixteen numbered values.  What a bank holds is what `get` returns: `get_set` describes every update and `ext` says
that nothing else distinguishes two banks.
-/

namespace LongMode

structure Bank where
  values : Vector Nat 16
  deriving DecidableEq, Repr

namespace Bank

def zero : Bank := ⟨Vector.replicate 16 0⟩

def get (b : Bank) (i : Fin 16) : Nat := b.values[i]

def set (b : Bank) (i : Fin 16) (value : Nat) : Bank := ⟨b.values.set i value⟩

def toList (b : Bank) : List Nat := b.values.toList

@[simp] theorem get_zero (i : Fin 16) : zero.get i = 0 := by simp [zero, get]

theorem get_set (b : Bank) (i j : Fin 16) (value : Nat) :
    (b.set i value).get j = if i = j then value else b.get j := by
  simp only [get, set, Fin.getElem_fin, Vector.getElem_set, Fin.ext_iff]

@[simp] theorem get_set_self (b : Bank) (i : Fin 16) (value : Nat) : (b.set i value).get i = value := by
  simp [get_set]

@[ext] theorem ext {a b : Bank} (h : ∀ i, a.get i = b.get i) : a = b := by
  obtain ⟨a⟩ := a
  obtain ⟨b⟩ := b
  congr 1
  exact Vector.ext fun i hi => h ⟨i, hi⟩

end Bank

end LongMode

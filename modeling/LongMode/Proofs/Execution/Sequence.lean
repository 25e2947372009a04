import LongMode.Proofs.Execution.Frame

/-!
# Instructions in order

* `Machine.executeAll`: instructions are executed one after the other, up to the first fault.
* `executeAll_cons_ok` and `executeAll_append`: it may be taken apart between any two of them.
* `rip_executeAll`: the counter has counted the instructions.
-/

namespace LongMode

namespace Machine

/-- Executes instructions in order; a fault ends it. -/
def executeAll (m : Machine) : List Instruction → Except Fault Machine
  | [] => .ok m
  | i :: rest => do (← m.execute i).executeAll rest

variable {m m' : Machine} {i : Instruction} {is : List Instruction}

theorem executeAll_cons_ok (h : m.execute i = .ok m') (rest : List Instruction) :
    m.executeAll (i :: rest) = m'.executeAll rest := by
  rw [executeAll, h]
  rfl

theorem executeAll_append (m : Machine) (is js : List Instruction) :
    m.executeAll (is ++ js) = m.executeAll is >>= fun m' => m'.executeAll js := by
  induction is generalizing m with
  | nil => rfl
  | cons i rest ih =>
    cases h : m.execute i with
    | error f =>
      rw [List.cons_append, executeAll, executeAll, h]
      rfl
    | ok m' => rw [List.cons_append, executeAll_cons_ok h, executeAll_cons_ok h, ih]

theorem rip_executeAll (hm : m.valid = true) (h : m.executeAll is = .ok m') :
    m'.rip = (m.rip + is.length) % 2 ^ 64 := by
  induction is generalizing m with
  | nil =>
    cases h
    have hrange := valid_iff.1 hm
    rw [List.length_nil, Int.natCast_zero, Int.add_zero, Int.emod_eq_of_lt hrange.rip_nonneg hrange.rip_lt]
  | cons i rest ih =>
    obtain ⟨m₁, hfirst, hrest⟩ := bind_eq_ok.1 h
    have hlength : ((i :: rest).length : Int) = 1 + rest.length := by
      rw [List.length_cons]
      omega
    rw [ih (valid_execute hm hfirst).1 hrest, rip_execute hfirst, Int.emod_add_emod, hlength, Int.add_assoc]

end Machine

end LongMode

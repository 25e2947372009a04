import LongMode.Proofs.Machine.Range
import LongMode.Proofs.Session.Command

/-!
# What every session keeps

* `valid_obeyAll`: whatever commands a session obeys, and whether they succeed or are refused, its machine stays valid
  and keeps its capacity.
* `Reachable.size_eq`: the memory of a session is as long as its capacity, also where the capacity is no number of 64
  bits and rsp starts out of range.
-/

namespace LongMode

namespace Session

theorem create_eq_ok {size : Int} (h : 0 < size) : create size = .ok ⟨Machine.fresh size.toNat, []⟩ := by
  rw [create, Machine.create, if_neg (by omega)]
  rfl

/-- The session is one that commands lead to, from a new session of the given memory size. -/
def Reachable (size : Int) (s : Session) : Prop :=
  ∃ (new : Session) (commands : List Command), create size = .ok new ∧ s = (new.obeyAll commands).2

/-- No write changes how long the memory is. -/
theorem keptByWrites_size : Machine.KeptByWrites fun m => m.memory.size = m.capacity where
  view _ _ _ h := h
  vector _ _ _ h := h
  flags _ _ h := h
  memory _ _ _ _ h := (Memory.size_store _ _ _).trans h
  advance _ h := h

theorem Reachable.size_eq {size : Int} (h : 0 < size) {s : Session} (hs : s.Reachable size) :
    s.machine.memory.size = s.machine.capacity := by
  obtain ⟨new, commands, hnew, rfl⟩ := hs
  rw [create_eq_ok h] at hnew
  cases hnew
  exact keptByWrites_size.obeyAll (fun m _ => Memory.size_zeroed _) (Memory.size_zeroed _) commands

/-- Since every beginning of a sequence is a sequence, this holds after each of the commands. -/
theorem valid_obeyAll {size : Int} (hpos : 0 < size) (hlt : size < 2 ^ 64) :
    ∃ s, create size = .ok s ∧ ∀ commands : List Command,
      (s.obeyAll commands).2.machine.valid = true ∧ (s.obeyAll commands).2.machine.InRange ∧
        (s.obeyAll commands).2.machine.capacity = size := by
  refine ⟨_, create_eq_ok hpos, fun commands => ?_⟩
  -- the bounds alone are not kept by a reset: rsp starts at the capacity, so that one is carried along
  have hkept := Machine.keptByWrites_inRange.and (.capacity size.toNat)
  have hfresh : (Machine.fresh size.toNat).InRange := Machine.inRange_fresh (by omega)
  have hreset : ∀ m : Machine, m.InRange ∧ m.capacity = size.toNat →
      m.reset.InRange ∧ m.reset.capacity = size.toNat := by
    intro m h
    rw [Machine.reset, h.2]
    exact ⟨hfresh, rfl⟩
  have hsound := hkept.obeyAll hreset (s := ⟨Machine.fresh size.toNat, []⟩) ⟨hfresh, rfl⟩ commands
  exact ⟨Machine.valid_iff.2 hsound.1, hsound.1, by rw [hsound.2]; omega⟩

/-- A stack of one word, negative values, a product that wraps, and a store beyond memory. -/
theorem valid_obeyAll_wrapping : (0 : Int) < 8 ∧ (8 : Int) < 2 ^ 64 ∧ ∃ s, create 8 = .ok s ∧
    (s.obeyAll [.step "push -1".toList, .writeRegister "AH" (-5), .step "imul rsp, rsp, -3".toList,
      .writeInteger 4 8 (-1), .step "pop rsp".toList, .step "dec rsp".toList]).2.machine.valid = true := by
  obtain ⟨s, hs, h⟩ := valid_obeyAll (by decide : (0 : Int) < 8) (by decide)
  exact ⟨by decide, by decide, s, hs, (h _).1⟩

end Session

end LongMode

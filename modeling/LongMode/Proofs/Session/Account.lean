import LongMode.Proofs.Session.Block

/-!
# What a report accounts for

An instruction that is submitted to a run is executed, or it stops the run, or it is never attempted.

* `RunReport.leftOver`: the instructions that were neither executed nor stopped the run.
* `Machine.executed_attemptAll`: a run executes the instructions in front of the first fault and no others.
* `RunReport.leftOver_of_stopped`: what is left over lies between the executed instructions and the one that stops the
  run, and behind that one.
* `accounts_run`: so a run of instructions counts everything that it leaves over.  A program with a line that cannot be
  read executes nothing, and its report counts only the lines behind that one.
-/

namespace LongMode

namespace RunReport

/-- The numbers of the instructions that were executed. -/
def executed (r : RunReport) : List Nat := (r.entries.filter TraceEntry.succeeded).map TraceEntry.index

/-- The number of the instruction that stopped the run, if one did. -/
def stoppedAt (r : RunReport) : Option Nat := r.failure.map Prod.fst

/-- The instruction of that number was neither executed nor stopped the run. -/
def IsLeftOver (r : RunReport) (k : Nat) : Prop := k ∉ r.executed ∧ r.stoppedAt ≠ some k

instance (r : RunReport) (k : Nat) : Decidable (r.IsLeftOver k) := inferInstanceAs (Decidable (_ ∧ _))

/-- The numbers of the instructions submitted that were neither executed nor stopped the run. -/
def leftOver (r : RunReport) : List Nat := (List.range r.total).filter fun k => r.IsLeftOver k

/-- Every instruction submitted was executed, stopped the run, or is counted as not attempted. -/
structure Accounts (r : RunReport) : Prop where
  total_eq : r.total = r.entries.countP TraceEntry.succeeded + (if r.completed then 0 else 1) + r.notAttempted
  leftOver_eq : r.notAttempted = r.leftOver.length

variable {r : RunReport} {n k : Nat}

theorem countP_succeeded (r : RunReport) : r.entries.countP TraceEntry.succeeded = r.executed.length := by
  rw [executed, List.length_map, List.countP_eq_length_filter]

private theorem range'_append_range' {a b c : Nat} (hab : a ≤ b) (hbc : b ≤ c) :
    List.range' a (b - a) ++ List.range' b (c - b) = List.range' a (c - a) := by
  have happend := @List.range'_append_1 a (b - a) (c - b)
  have hmiddle : a + (b - a) = b := by omega
  have hcount : b - a + (c - b) = c - a := by omega
  rwa [hmiddle, hcount] at happend

private theorem range_eq (hnk : n ≤ k) {total : Nat} (hk : k < total) :
    List.range total =
      List.range n ++ (List.range' n (k - n) ++ k :: List.range' (k + 1) (total - (k + 1))) := by
  have hbehind : k :: List.range' (k + 1) (total - (k + 1)) = List.range' k (total - k) := by
    have hcount : total - k = total - (k + 1) + 1 := by omega
    rw [hcount, List.range'_succ]
  have hfront : List.range' 0 n ++ List.range' n (total - n) = List.range' 0 total :=
    range'_append_range' (Nat.zero_le n) (by omega)
  rw [hbehind, range'_append_range' hnk (by omega), List.range_eq_range', List.range_eq_range', hfront]

/-- Behind the executed instructions everything is left over but the one that stops the run. -/
private theorem filter_isLeftOver (he : r.executed = List.range n) (hs : r.stoppedAt = some k) {numbers : List Nat}
    (h : ∀ j ∈ numbers, n ≤ j ∧ j ≠ k) : numbers.filter (fun j => r.IsLeftOver j) = numbers := by
  rw [List.filter_eq_self]
  intro j hj
  obtain ⟨hnj, hne⟩ := h j hj
  have hexecuted : j ∉ r.executed := by
    rw [he, List.mem_range]
    omega
  have hstopped : r.stoppedAt ≠ some j := by
    rw [hs]
    exact fun h => hne (Option.some.inj h).symm
  exact decide_eq_true ⟨hexecuted, hstopped⟩

private theorem filter_isLeftOver_executed (he : r.executed = List.range n) :
    (List.range n).filter (fun j => r.IsLeftOver j) = [] := by
  rw [List.filter_eq_nil_iff]
  intro j hj h
  exact (of_decide_eq_true h).1 (he ▸ hj)

/-- What is left over by a run that executes the first `n` instructions and is stopped by number `k`. -/
theorem leftOver_of_stopped (he : r.executed = List.range n) (hs : r.stoppedAt = some k) (hnk : n ≤ k)
    (hk : k < r.total) :
    r.leftOver = List.range' n (k - n) ++ List.range' (k + 1) (r.total - (k + 1)) := by
  have hstop : ¬ r.IsLeftOver k := fun h => h.2 hs
  have hbetween : ∀ j ∈ List.range' n (k - n), n ≤ j ∧ j ≠ k := by
    intro j hj
    rw [List.mem_range'_1] at hj
    omega
  have hbehind : ∀ j ∈ List.range' (k + 1) (r.total - (k + 1)), n ≤ j ∧ j ≠ k := by
    intro j hj
    rw [List.mem_range'_1] at hj
    omega
  rw [leftOver, range_eq hnk hk, List.filter_append, List.filter_append, List.filter_cons_of_neg (by simpa using hstop),
    filter_isLeftOver_executed he, filter_isLeftOver he hs hbetween, filter_isLeftOver he hs hbehind, List.nil_append]

private theorem sum_of_stopped (he : r.executed = List.range n) (hs : r.stoppedAt = some k) :
    r.entries.countP TraceEntry.succeeded + (if r.completed then 0 else 1) = n + 1 := by
  obtain ⟨p, hp, -⟩ := Option.map_eq_some_iff.1 hs
  have hcompleted : r.completed = false := by rw [completed, hp]; rfl
  rw [countP_succeeded, he, List.length_range, hcompleted, if_neg Bool.false_ne_true]

/-- What is counted as not attempted comes after the instruction that stops the run; the left over ones in front of it
are missing. -/
theorem total_of_stopped (he : r.executed = List.range n) (hs : r.stoppedAt = some k) (hnk : n ≤ k)
    (hk : k < r.total) :
    r.total = n + 1 + (k - n) + r.notAttempted ∧ r.leftOver.length = k - n + r.notAttempted := by
  have hnot : r.notAttempted = r.total - (k + 1) := by
    obtain ⟨p, hp, rfl⟩ := Option.map_eq_some_iff.1 hs
    rw [notAttempted, hp, Nat.sub_add_eq]
  constructor
  · omega
  · rw [leftOver_of_stopped he hs hnk hk, List.length_append, List.length_range', List.length_range', hnot]

theorem accounts_of_completed (he : r.executed = List.range r.total) (hs : r.failure = none) : r.Accounts where
  total_eq := by
    have hcompleted : r.completed = true := by rw [completed, hs]; rfl
    have hnot : r.notAttempted = 0 := by rw [notAttempted, hs]
    rw [countP_succeeded, he, List.length_range, hcompleted, hnot, if_pos rfl, Nat.add_zero]
  leftOver_eq := by rw [leftOver, filter_isLeftOver_executed he, notAttempted, hs, List.length_nil]

/-- A run that is stopped accounts for everything just if it has executed all instructions in front of that one. -/
theorem accounts_iff_of_stopped (he : r.executed = List.range n) (hs : r.stoppedAt = some k) (hnk : n ≤ k)
    (hk : k < r.total) : r.Accounts ↔ n = k := by
  obtain ⟨htotal, hleft⟩ := total_of_stopped he hs hnk hk
  have hsum := sum_of_stopped he hs
  constructor
  · intro h
    have haccounts := h.total_eq
    omega
  · rintro rfl
    exact ⟨by omega, by omega⟩

end RunReport

/-! ### Runs -/

namespace Machine

private theorem executed_cons {e : TraceEntry} (he : e.succeeded = true) (entries : List TraceEntry) :
    ((e :: entries).filter TraceEntry.succeeded).map TraceEntry.index =
      e.index :: (entries.filter TraceEntry.succeeded).map TraceEntry.index := by
  rw [List.filter_cons_of_pos he, List.map_cons]

/-- All instructions in front of the first fault are executed, and none from there on. -/
theorem executed_attemptAll (m : Machine) (n : Nat) (is : List Instruction) :
    ((m.attemptAll n is).2.1 = none ∧
        ((m.attemptAll n is).1.filter TraceEntry.succeeded).map TraceEntry.index = List.range' n is.length) ∨
      ∃ k f, (m.attemptAll n is).2.1 = some (n + k, .fault f) ∧ k < is.length ∧
        ((m.attemptAll n is).1.filter TraceEntry.succeeded).map TraceEntry.index = List.range' n k := by
  induction is generalizing m n with
  | nil => exact .inl ⟨rfl, rfl⟩
  | cons i rest ih =>
    cases h : m.execute i with
    | error f =>
      rw [attemptAll_cons_error h]
      exact .inr ⟨0, f, rfl, Nat.zero_lt_succ _, rfl⟩
    | ok m' =>
      rw [attemptAll_cons_ok h]
      dsimp only
      rw [executed_cons rfl]
      rcases ih m' (n + 1) with ⟨hnone, hexecuted⟩ | ⟨k, f, hsome, hk, hexecuted⟩
      · left
        rw [hexecuted, List.length_cons, List.range'_succ]
        exact ⟨hnone, rfl⟩
      · right
        refine ⟨k + 1, f, ?_, ?_, ?_⟩
        · rw [hsome, Nat.add_assoc, Nat.add_comm 1 k]
        · rw [List.length_cons]
          omega
        · rw [hexecuted, List.range'_succ]

/-- A run of instructions counts what it leaves over. -/
theorem accounts_of_run (m : Machine) (is : List Instruction) : (m.run is).1.Accounts := by
  have htotal : (m.run is).1.total = is.length := rfl
  rcases m.executed_attemptAll 0 is with ⟨hnone, hexecuted⟩ | ⟨k, f, hsome, hk, hexecuted⟩
  · rw [← List.range_eq_range', ← htotal] at hexecuted
    exact RunReport.accounts_of_completed hexecuted hnone
  · rw [← List.range_eq_range'] at hexecuted
    rw [Nat.zero_add] at hsome
    have hstopped : (m.run is).1.stoppedAt = some k := congrArg (Option.map Prod.fst) hsome
    have hnumbers : (m.run is).1.executed = List.range k := hexecuted
    exact (RunReport.accounts_iff_of_stopped hnumbers hstopped (Nat.le_refl k) (htotal ▸ hk)).2 rfl

end Machine

namespace Session

open Assembly

/-- A program is run as instructions, or it has a line that cannot be read and is not run at all. -/
theorem run_cases (s : Session) (source : List Char) :
    (∃ is, is.length = (programLines source).length ∧ (s.run source).1 = (s.machine.run is).1) ∨
      ∃ k e, k < (programLines source).length ∧
        (s.run source).1 = ⟨[], (programLines source).length, some (k, .unread e)⟩ := by
  cases h : readAll 0 (programLines source) with
  | ok is =>
    have hlength := congrArg List.length (readAll_eq_ok.1 h)
    rw [List.length_map, List.length_map] at hlength
    exact .inl ⟨is, hlength.symm, by rw [run, h]⟩
  | error p =>
    obtain ⟨k, line, hk, hline, -, -⟩ := readAll_eq_error h
    rw [Nat.zero_add] at hk
    obtain ⟨hlt, -⟩ := List.getElem?_eq_some_iff.1 hline
    exact .inr ⟨k, p.2, hlt, by rw [run, h, ← hk]⟩

private theorem failure_run_ne_unread (m : Machine) (is : List Instruction) (k : Nat) (e : ParseError) :
    (m.run is).1.failure ≠ some (k, .unread e) := by
  intro h
  have hfailure : (m.attemptAll 0 is).2.1 = some (k, .unread e) := h
  rcases m.executed_attemptAll 0 is with ⟨hnone, -⟩ | ⟨j, f, hsome, -⟩
  · rw [hnone] at hfailure
    cases hfailure
  · rw [hsome] at hfailure
    cases hfailure

/-- The instructions executed, the one that stops the run and those counted as not attempted are all that were
submitted, and those counted are exactly the ones left over; but the report of a program with a line that cannot be
read leaves out the lines in front of it, which are not executed either. -/
theorem accounts_run (m : Machine) (is : List Instruction) (s : Session) (source : List Char) :
    ((m.run is).1.total = is.length ∧ (m.run is).1.Accounts) ∧
    (s.run source).1.total = (programLines source).length ∧
    ((s.run source).1.Accounts ↔ ∀ k e, (s.run source).1.failure = some (k, .unread e) → k = 0) ∧
    ∀ k e, (s.run source).1.failure = some (k, .unread e) →
      (s.run source).1.entries = [] ∧ k < (s.run source).1.total ∧
        (s.run source).1.leftOver.length = k + (s.run source).1.notAttempted ∧
        (s.run source).1.total = 1 + k + (s.run source).1.notAttempted := by
  refine ⟨⟨rfl, m.accounts_of_run is⟩, ?_⟩
  rcases s.run_cases source with ⟨is, hlength, hrun⟩ | ⟨k, e, hk, hrun⟩
  · rw [hrun]
    have hunread := failure_run_ne_unread s.machine is
    refine ⟨hlength, ?_, fun k e h => absurd h (hunread k e)⟩
    exact ⟨fun _ k e h => absurd h (hunread k e), fun _ => s.machine.accounts_of_run is⟩
  · rw [hrun]
    -- nothing was executed in front of the line that cannot be read
    have hnone : RunReport.executed ⟨[], (programLines source).length, some (k, .unread e)⟩ = List.range 0 := rfl
    refine ⟨rfl, ?_, ?_⟩
    · rw [RunReport.accounts_iff_of_stopped hnone rfl (Nat.zero_le k) hk]
      constructor
      · rintro rfl j e' h
        cases h
        rfl
      · intro h
        exact (h k e rfl).symm
    · rintro j e' h
      cases h
      obtain ⟨htotal, hleft⟩ := RunReport.total_of_stopped hnone rfl (Nat.zero_le k) hk
      rw [Nat.sub_zero] at htotal hleft
      exact ⟨rfl, hk, hleft, htotal.trans (by omega)⟩

/-- The third line cannot be read: two lines in front of it and one behind it are left over. -/
theorem accounts_run_third_line : (∃ e, (run ⟨.fresh 16, []⟩ "nop\nnop\njmp 5\nnop".toList).1.failure =
      some (2, .unread e)) ∧
    (run ⟨.fresh 16, []⟩ "nop\nnop\njmp 5\nnop".toList).1.leftOver.length =
      2 + (run ⟨.fresh 16, []⟩ "nop\nnop\njmp 5\nnop".toList).1.notAttempted := by
  have h : (run ⟨.fresh 16, []⟩ "nop\nnop\njmp 5\nnop".toList).1.failure =
      some (2, .unread ⟨.controlTransfer "jmp".toList, "jmp".toList, 0⟩) := rfl
  exact ⟨⟨_, h⟩, ((accounts_run (.fresh 16) [] _ _).2.2.2 _ _ h).2.2.1⟩

/-- The second of three lines cannot be read.  None is executed, and one of the other two is counted. -/
theorem not_accounts_run_unread :
    ¬ (run ⟨.fresh 16, []⟩ "mov rax, 1\nmov rbx, rbz\nmov rcx, 3".toList).1.Accounts := by
  intro h
  have hsum := h.total_eq
  revert hsum
  decide

end Session

end LongMode

import LongMode.Proofs.Assembly.Layout
import LongMode.Proofs.Session.Run
import LongMode.Session.Basic

/-!
# A program and its lines

Running a program is compared with stepping through the lines as they are written, with their comments and white space.

* `readAll_eq_ok` and `readAll_eq_error`: what reading a whole program finds.
* `stepLines_eq`: stepping through lines that can be read attempts their instructions.
* `run_eq_stepLines`: a program whose lines can all be read does what its lines do; otherwise it does nothing, and
  reports the first line that cannot be read.
-/

namespace LongMode

namespace Session

open Assembly

/-- The lines of a text that hold more than a comment, as they are written. -/
def rawLines (source : List Char) : List (List Char) :=
  (splitLines source).filter fun line => !(bareLine line).isEmpty

/-- The line of a step was read and its instruction executed. -/
def stepSucceeded : Except ParseError TraceEntry → Bool
  | .ok e => e.succeeded
  | .error _ => false

/-- Steps through lines in order, up to the first step that does not succeed. -/
def stepLines (s : Session) : List (List Char) → Session
  | [] => s
  | line :: rest => if stepSucceeded (s.step line).1 then (s.step line).2.stepLines rest else (s.step line).2

theorem programLines_eq (source : List Char) : programLines source = (rawLines source).map bareLine :=
  List.filter_map

theorem parse_rawLine {source line : List Char} (h : line ∈ rawLines source) {i : Instruction} :
    parse line = .ok i ↔ parse (bareLine line) = .ok i :=
  (sameReading_bareLine (lineFeed_not_mem (List.mem_filter.1 h).1)).ok_iff

/-! ### Reading -/

theorem readAll_eq_ok {n : Nat} {lines : List (List Char)} {is : List Instruction} :
    readAll n lines = .ok is ↔ lines.map parse = is.map .ok := by
  induction lines generalizing n is with
  | nil => cases is <;> simp [readAll]
  | cons line rest ih =>
    rw [readAll]
    cases h : parse line with
    | error e => cases is <;> simp [h]
    | ok i =>
      dsimp only
      rw [map_eq_ok]
      cases is with
      | nil => simp
      | cons j is =>
        rw [List.map_cons, List.map_cons, List.cons.injEq, h]
        constructor
        · rintro ⟨a, ha, hja⟩
          cases hja
          exact ⟨rfl, ih.1 ha⟩
        · rintro ⟨hi, hrest⟩
          cases hi
          exact ⟨is, ih.2 hrest, rfl⟩

theorem readAll_eq_error {n k' : Nat} {lines : List (List Char)} {e : ParseError}
    (h : readAll n lines = .error (k', e)) : ∃ k line, k' = n + k ∧ lines[k]? = some line ∧ parse line = .error e ∧
      ∀ j < k, ∀ line', lines[j]? = some line' → ∃ i, parse line' = .ok i := by
  induction lines generalizing n with
  | nil => cases h
  | cons line rest ih =>
    rw [readAll] at h
    cases hline : parse line with
    | error e' =>
      rw [hline] at h
      cases h
      exact ⟨0, line, rfl, rfl, hline, fun j hj => absurd hj (Nat.not_lt_zero j)⟩
    | ok i =>
      rw [hline] at h
      cases hrest : readAll (n + 1) rest with
      | ok is =>
        rw [hrest] at h
        cases h
      | error p =>
        rw [hrest] at h
        cases h
        obtain ⟨k, line', rfl, hk, he, hbefore⟩ := ih hrest
        refine ⟨k + 1, line', by omega, hk, he, fun j hj l hl => ?_⟩
        cases j with
        | zero =>
          cases hl
          exact ⟨i, hline⟩
        | succ j => exact hbefore j (by omega) l hl

/-! ### Stepping -/

theorem stepLines_eq (s : Session) {lines : List (List Char)} {is : List Instruction}
    (h : lines.map parse = is.map .ok) : s.stepLines lines =
      ⟨(s.machine.attemptAll s.trace.length is).2.2, s.trace ++ (s.machine.attemptAll s.trace.length is).1⟩ := by
  induction lines generalizing s is with
  | nil =>
    obtain rfl : is = [] := by simpa using h.symm
    rw [stepLines, Machine.attemptAll, List.append_nil]
  | cons line rest ih =>
    cases is with
    | nil => cases h
    | cons i is =>
      obtain ⟨hline, hrest⟩ := List.cons.inj h
      have hstep : s.step line = (.ok (s.machine.attempt s.trace.length i).1,
          ⟨(s.machine.attempt s.trace.length i).2, s.trace ++ [(s.machine.attempt s.trace.length i).1]⟩) := by
        rw [step, hline]
      rw [stepLines, hstep]
      cases hi : s.machine.execute i with
      | error f =>
        rw [Machine.attemptAll_cons_error hi, Machine.attempt_error hi]
        rfl
      | ok m' =>
        rw [Machine.attemptAll_cons_ok hi, Machine.attempt_ok hi]
        -- the step succeeds, so the other lines follow
        refine (if_pos rfl).trans ((ih _ hrest).trans ?_)
        dsimp only
        rw [List.length_append, List.length_singleton, List.append_assoc, List.singleton_append]

theorem run_eq_stepLines (s : Session) (source : List Char) :
    ((∀ line ∈ programLines source, ∃ i, parse line = .ok i) →
      (s.run source).2.machine = (s.stepLines (rawLines source)).machine ∧
      (s.run source).2.trace = s.trace ++ (s.run source).1.entries ∧
      (s.stepLines (rawLines source)).trace =
        s.trace ++ (s.run source).1.entries.map (.shift s.trace.length)) ∧
    ((∃ line ∈ programLines source, ∃ e, parse line = .error e) →
      ∃ k line e, (programLines source)[k]? = some line ∧ parse line = .error e ∧
        (∀ j < k, ∀ line', (programLines source)[j]? = some line' → ∃ i, parse line' = .ok i) ∧
        s.run source = (⟨[], (programLines source).length, some (k, .unread e)⟩, s)) := by
  cases h : readAll 0 (programLines source) with
  | ok is =>
    have hread := readAll_eq_ok.1 h
    refine ⟨fun hall => ?_, fun ⟨line, hline, e, he⟩ => ?_⟩
    · have hraw : (rawLines source).map parse = is.map .ok := by
        rw [← hread, programLines_eq, List.map_map]
        refine List.map_congr_left fun line hline => ?_
        have hbare : bareLine line ∈ programLines source := by
          rw [programLines_eq]
          exact List.mem_map_of_mem hline
        obtain ⟨i, hi⟩ := hall _ hbare
        rw [Function.comp_apply, hi]
        exact (parse_rawLine hline).2 hi
      rw [stepLines_eq s hraw, run, h]
      dsimp only [Machine.run]
      rw [← Nat.add_zero s.trace.length, Machine.attemptAll_shift]
      exact ⟨rfl, rfl, rfl⟩
    · -- all lines were read
      have hmem : parse line ∈ (programLines source).map parse := List.mem_map_of_mem hline
      rw [hread, he] at hmem
      simp at hmem
  | error p =>
    obtain ⟨k, line, hk, hline, he, hbefore⟩ := readAll_eq_error h
    refine ⟨fun hall => ?_, fun _ => ⟨k, line, p.2, hline, he, hbefore, ?_⟩⟩
    · obtain ⟨i, hi⟩ := hall line (List.mem_of_getElem? hline)
      rw [he] at hi
      cases hi
    · rw [Nat.zero_add] at hk
      rw [run, h, ← hk]

/-- A pop from an empty stack, written with comments; and a second line that cannot be read. -/
theorem run_eq_stepLines_empty_stack :
    ((∀ line ∈ programLines "inc rax ; one\n\n\tPOP rbx # more\nnop".toList, ∃ i, parse line = .ok i) ∧
      (stepLines ⟨.fresh 16, []⟩ (rawLines "inc rax ; one\n\n\tPOP rbx # more\nnop".toList)).trace =
        (run ⟨.fresh 16, []⟩ "inc rax ; one\n\n\tPOP rbx # more\nnop".toList).1.entries.map (.shift 0)) ∧
    ((∃ line ∈ programLines "nop\n\nmov rax".toList, ∃ e, parse line = .error e) ∧
      (run ⟨.fresh 16, []⟩ "nop\n\nmov rax".toList).1.entries = []) := by
  have hlines : programLines "inc rax ; one\n\n\tPOP rbx # more\nnop".toList =
      ["inc rax".toList, "POP rbx".toList, "nop".toList] := by decide
  have hread : ∀ line ∈ programLines "inc rax ; one\n\n\tPOP rbx # more\nnop".toList, ∃ i, parse line = .ok i := by
    rw [hlines]
    intro line hline
    simp only [List.mem_cons, List.not_mem_nil, or_false] at hline
    rcases hline with rfl | rfl | rfl
    · exact ⟨⟨.inc, [.register (.low .rax .qword)]⟩, rfl⟩
    · exact ⟨⟨.pop, [.register (.low .rbx .qword)]⟩, rfl⟩
    · exact ⟨⟨.nop, []⟩, rfl⟩
  have hunread : ∃ line ∈ programLines "nop\n\nmov rax".toList, ∃ e, parse line = .error e :=
    ⟨"mov rax".toList, by decide, ⟨.operandCount .mov 1, "mov".toList, 0⟩, rfl⟩
  refine ⟨⟨hread, ((run_eq_stepLines ⟨.fresh 16, []⟩ _).1 hread).2.2⟩, hunread, ?_⟩
  obtain ⟨k, line, e, -, -, -, h⟩ := (run_eq_stepLines ⟨.fresh 16, []⟩ _).2 hunread
  rw [h]

end Session

end LongMode

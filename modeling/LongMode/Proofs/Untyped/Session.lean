import LongMode.Proofs.Assembly.Shape
import LongMode.Proofs.Session.Invariant
import LongMode.Proofs.Untyped.Encoders
import LongMode.Proofs.Untyped.Handlers
import LongMode.Proofs.Untyped.Readers

/-!
# Sessions never get stuck

The untyped reader, encoder and engine put together: what the three entry points of a session answer, where every
instruction that is attempted is also written out.  Errors of reading, of encoding and of execution become part of the
answer; being stuck does not, and ends the session.

* `attempt_erase` and `attemptAll_erase`: on a machine whose memory is as long as its capacity, an attempt and a run of
  attempts give the untyped forms of the entries that the library gives.
* `never_stuck`: no session that starts with some memory gets stuck, whatever has been done with it and whatever text it
  is given; what it answers is what the library answers.
-/

namespace LongMode

namespace Untyped

/-- A computation without an error of its own. -/
def certain {α : Type} : Partial Empty α → Except Stuck α
  | .ok a => .ok a
  | .error (.stuck reason) => .error reason

inductive Assembled
  | unread (error : ParseError)
  | unencodable (error : Notice EncodeErrorKind)
  | encoded (instruction : Instruction) (text : String) (bytes : List UInt8)

/-- An attempted instruction and how it is written. -/
structure TraceEntry where
  index : Nat
  instruction : Instruction
  text : String
  encoding : Except (Notice EncodeErrorKind) (List UInt8)
  fault : Option (Notice FaultKind)
  before : Snapshot
  after : Snapshot

inductive RunError
  | unread (error : ParseError)
  | fault (fault : Notice FaultKind)

structure RunReport where
  entries : List TraceEntry
  total : Nat
  failure : Option (Nat × RunError)

structure Session where
  machine : Machine
  trace : List TraceEntry

def Assembled.ofText (text : List Char) : Except Stuck Assembled := do
  match ← outcome (parse text) with
  | .error e => return .unread e
  | .ok i =>
    match ← outcome i.encode with
    | .error e => return .unencodable e
    | .ok bytes => return .encoded i (← certain i.text) bytes

/-- Attempts one instruction. -/
def attempt (m : Machine) (index : Nat) (i : Instruction) : Except Stuck (TraceEntry × Machine) := do
  let text ← certain i.text
  let encoding ← outcome i.encode
  match ← outcome (execute m i) with
  | .ok m' => return (⟨index, i, text, encoding, none, m.snapshot, m'.snapshot⟩, m')
  | .error f => return (⟨index, i, text, encoding, some f, m.snapshot, m.snapshot⟩, m)

/-- Attempts instructions in order until one faults. -/
def attemptAll (m : Machine) (index : Nat) :
    List Instruction → Except Stuck (List TraceEntry × Option (Nat × RunError) × Machine)
  | [] => return ([], none, m)
  | i :: rest => do
    let (entry, m') ← attempt m index i
    match entry.fault with
    | some f => return ([entry], some (index, .fault f), m')
    | none =>
      let (entries, failure, last) ← attemptAll m' (index + 1) rest
      return (entry :: entries, failure, last)

/-- The instructions of a program, or the index and the error of its first line that is none. -/
def readAll (index : Nat) : List (List Char) → Except Stuck (Except (Nat × ParseError) (List Instruction))
  | [] => return .ok []
  | line :: rest => do
    match ← outcome (parse line) with
    | .error e => return .error (index, e)
    | .ok i => return (← readAll (index + 1) rest).map fun is => i :: is

namespace Session

def step (s : Session) (text : List Char) : Except Stuck (Except ParseError TraceEntry × Session) := do
  match ← outcome (parse text) with
  | .error e => return (.error e, s)
  | .ok i =>
    let (entry, m) ← attempt s.machine s.trace.length i
    return (.ok entry, ⟨m, s.trace ++ [entry]⟩)

def run (s : Session) (source : List Char) : Except Stuck (RunReport × Session) := do
  let lines := Assembly.programLines source
  match ← readAll 0 lines with
  | .error (index, e) => return (⟨[], lines.length, some (index, .unread e)⟩, s)
  | .ok instructions =>
    let (entries, failure, m) ← attemptAll s.machine 0 instructions
    return (⟨entries, instructions.length, failure⟩, ⟨m, s.trace ++ entries⟩)

end Session

end Untyped

/-! ### Untyped forms of answers -/

def Assembled.erase : Assembled → Untyped.Assembled
  | .unread e => .unread e
  | .unencodable e => .unencodable e.notice
  | .encoded i bytes => .encoded i.erase i.text bytes

def TraceEntry.erase (e : TraceEntry) : Untyped.TraceEntry :=
  ⟨e.index, e.instruction.erase, e.instruction.text, e.encoding.mapError EncodeError.notice, e.fault.map Fault.notice,
    e.before, e.after⟩

def RunError.erase : RunError → Untyped.RunError
  | .unread e => .unread e
  | .fault f => .fault f.notice

def RunReport.erase (r : RunReport) : Untyped.RunReport :=
  ⟨r.entries.map TraceEntry.erase, r.total, r.failure.map fun (index, e) => (index, e.erase)⟩

def Session.erase (s : Session) : Untyped.Session := ⟨s.machine, s.trace.map TraceEntry.erase⟩

namespace Untyped

open LongMode.Session (Reachable keptByWrites_size)

private theorem outcome_parse (text : List Char) :
    outcome (parse text) = .ok ((Assembly.parse text).map LongMode.Instruction.erase) := by
  rw [parse_erase, outcome_settled]

private theorem certain_text (i : LongMode.Instruction) : certain i.erase.text = .ok i.text := by
  rw [text_erase]
  rfl

/-! ### What reading has established -/

variable {i : LongMode.Instruction}

private theorem outcome_encode (hi : i.WellFormed) :
    outcome i.erase.encode = .ok (i.encode.mapError EncodeError.notice) := by
  rw [encode_erase hi.count, outcome_settled]

/-- The immediates of an instruction that is read have bits. -/
private theorem immediate_pos (hi : i.WellFormed) {z : Int} {n : Nat} (h : .immediate z n ∈ i.operands) : 0 < n := by
  obtain ⟨k, hk⟩ := List.getElem?_of_mem h
  obtain ⟨first, rest, hoperands⟩ := List.exists_cons_of_ne_nil (List.ne_nil_of_mem h)
  have hfirst : i.operands[0]? = some first := by rw [hoperands]; rfl
  rw [hi.immediate k z n first hk hfirst, Mnemonic.immediateBits]
  split
  · decide
  · split
    · decide
    · rename_i hpush
      cases first with
      | register v => exact v.width.bits_pos
      | vector x => exact Nat.zero_lt_succ _
      | immediate z n => exact absurd (hi.first z n hfirst) hpush
      | memory l => exact l.width.bits_pos

private theorem outcome_execute {m : Machine} (h : m.memory.size = m.capacity) (hi : i.WellFormed) :
    outcome (execute m i.erase) = .ok ((m.execute i).mapError Fault.notice) := by
  rw [execute_erase h fun z n => immediate_pos hi, outcome_settled]

/-! ### Attempts -/

theorem attempt_erase {m : Machine} (h : m.memory.size = m.capacity) (hi : i.WellFormed) (index : Nat) :
    attempt m index i.erase = .ok ((m.attempt index i).1.erase, (m.attempt index i).2) := by
  unfold attempt Machine.attempt
  rw [certain_text, outcome_encode hi, outcome_execute h hi]
  cases m.execute i <;> rfl

private theorem attempt_size {m : Machine} (h : m.memory.size = m.capacity) (index : Nat) (i : LongMode.Instruction) :
    (m.attempt index i).2.memory.size = (m.attempt index i).2.capacity :=
  keptByWrites_size.attempt h index i

theorem attemptAll_erase {m : Machine} (h : m.memory.size = m.capacity) {is : List LongMode.Instruction}
    (his : ∀ i ∈ is, i.WellFormed) (index : Nat) :
    attemptAll m index (is.map LongMode.Instruction.erase) =
      .ok ((m.attemptAll index is).1.map LongMode.TraceEntry.erase,
        (m.attemptAll index is).2.1.map fun (index, e) => (index, e.erase), (m.attemptAll index is).2.2) := by
  induction is generalizing m index with
  | nil => rfl
  | cons i rest ih =>
    have hrest := ih (attempt_size h index i) (fun i hi => his i (List.mem_cons_of_mem _ hi)) (index + 1)
    rw [List.map_cons, attemptAll, attempt_erase h (his i List.mem_cons_self), Machine.attemptAll]
    generalize m.attempt index i = attempted at hrest ⊢
    obtain ⟨entry, m'⟩ := attempted
    dsimp only at hrest
    have hfault : entry.erase.fault = entry.fault.map Fault.notice := rfl
    simp only [ok_bind, hfault]
    cases entry.fault with
    | some f => rfl
    | none =>
      simp only [Option.map_none, hrest, ok_bind]
      rfl

private theorem readAll_erase (index : Nat) (lines : List (List Char)) :
    readAll index lines =
      .ok ((LongMode.Session.readAll index lines).map (List.map LongMode.Instruction.erase)) := by
  induction lines generalizing index with
  | nil => rfl
  | cons line rest ih =>
    rw [readAll, outcome_parse, ih, LongMode.Session.readAll]
    cases Assembly.parse line with
    | error e => rfl
    | ok i => cases LongMode.Session.readAll (index + 1) rest <;> rfl

private theorem readAll_wellFormed {index : Nat} {lines : List (List Char)} {is : List LongMode.Instruction}
    (h : LongMode.Session.readAll index lines = .ok is) : ∀ i ∈ is, i.WellFormed := by
  induction lines generalizing index is with
  | nil =>
    cases h
    exact fun i hi => absurd hi List.not_mem_nil
  | cons line rest ih =>
    rw [LongMode.Session.readAll] at h
    split at h
    · cases h
    · rename_i i hparse
      obtain ⟨others, hothers, rfl⟩ := map_eq_ok.1 h
      exact List.forall_mem_cons.2 ⟨Assembly.parse_wellFormed hparse, ih hothers⟩

/-! ### Entry points -/

theorem ofText_erase (text : List Char) : Assembled.ofText text = .ok (LongMode.Assembled.ofText text).erase := by
  unfold Assembled.ofText LongMode.Assembled.ofText
  rw [outcome_parse]
  cases hparse : Assembly.parse text with
  | error e => rfl
  | ok i =>
    simp only [map_ok, ok_bind, outcome_encode (Assembly.parse_wellFormed hparse), certain_text]
    cases i.encode <;> rfl

variable {s : LongMode.Session} (h : s.machine.memory.size = s.machine.capacity)

include h

theorem step_erase (text : List Char) :
    s.erase.step text = .ok ((s.step text).1.map LongMode.TraceEntry.erase, (s.step text).2.erase) := by
  unfold Session.step LongMode.Session.step
  rw [outcome_parse]
  cases hparse : Assembly.parse text with
  | error e => rfl
  | ok i =>
    simp only [map_ok, ok_bind, LongMode.Session.erase, List.length_map, List.map_append,
      attempt_erase h (Assembly.parse_wellFormed hparse)]
    rfl

theorem run_erase (source : List Char) :
    s.erase.run source = .ok ((s.run source).1.erase, (s.run source).2.erase) := by
  unfold Session.run LongMode.Session.run
  dsimp only
  rw [readAll_erase]
  cases hread : LongMode.Session.readAll 0 (Assembly.programLines source) with
  | error e => rfl
  | ok is =>
    simp only [map_ok, ok_bind, LongMode.Session.erase, LongMode.RunReport.erase, Machine.run, List.length_map,
      List.map_append, attemptAll_erase h (readAll_wellFormed hread)]
    rfl

end Untyped

namespace Session

/-- Whatever the session and the text, the untyped entry points answer, and answer what the library does: an
instruction and its bytes, an entry or a report, or an error of reading, of encoding or of execution in their place. -/
theorem never_stuck {size : Int} (hsize : 0 < size) {s : Session} (hs : s.Reachable size) (text : List Char) :
    Untyped.Assembled.ofText text = .ok (Assembled.ofText text).erase ∧
      s.erase.step text = .ok ((s.step text).1.map TraceEntry.erase, (s.step text).2.erase) ∧
      s.erase.run text = .ok ((s.run text).1.erase, (s.run text).2.erase) :=
  ⟨Untyped.ofText_erase text, Untyped.step_erase (hs.size_eq hsize) text, Untyped.run_erase (hs.size_eq hsize) text⟩

/-- A division by zero ends in an entry that holds the fault. -/
theorem never_stuck_division : (0 : Int) < 64 ∧
    (obeyAll ⟨.fresh 64, []⟩ [.step "mov eax, 5".toList]).2.Reachable 64 ∧
    ∃ e s', (obeyAll ⟨.fresh 64, []⟩ [.step "mov eax, 5".toList]).2.erase.step "div bl".toList = .ok (.ok e, s') ∧
      e.fault = some ⟨.divideByZero, "div bl: division by zero"⟩ := by
  have hs : (obeyAll ⟨.fresh 64, []⟩ [.step "mov eax, 5".toList]).2.Reachable 64 :=
    ⟨⟨.fresh 64, []⟩, [.step "mov eax, 5".toList], rfl, rfl⟩
  have hstep := (never_stuck (by decide) hs "div bl".toList).2.1
  exact ⟨by decide, hs, _, _, hstep, rfl⟩

end Session

end LongMode

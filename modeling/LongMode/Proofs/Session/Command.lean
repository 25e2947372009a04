import LongMode.Proofs.Execution.Staging
import LongMode.Proofs.Execution.Writes
import LongMode.Session.Basic

/-!
# Commands of a session

What a user does with a session, one command after the other.  A command answers with a reply; one that is refused
answers with an error, and the session goes on.

* `obey` and `obeyAll`: the reply to a command, the replies to a sequence of them, and the session afterwards.
* `obeyAll_induction`: what holds of a session and is kept by every command holds after every sequence of commands.
* `Machine.KeptByWrites.obeyAll`: a property of machines that writes and a reset keep holds after every sequence.
-/

namespace LongMode

/-- One thing that a user does. -/
inductive Command
  | assemble (text : List Char)
  | step (text : List Char)
  | run (source : List Char)
  | reset
  | readRegister (name : String)
  | writeRegister (name : String) (value : Int)
  | readMemory (address length : Int)
  | writeMemory (address : Int) (bytes : List UInt8)
  | writeInteger (address : Int) (size : Nat) (value : Int)

/-- What a command answers. -/
inductive Reply
  | assembled (result : Assembled)
  | stepped (result : Except ParseError TraceEntry)
  | ran (report : RunReport)
  | bytes (result : Except OutOfBounds (List UInt8))
  | accessed (result : Except AccessError Answer)
  | done

namespace Session

/-- The reply to a direct access, and the session with the machine that the access leaves. -/
def access (s : Session) (r : Except AccessError Answer × Machine) : Reply × Session :=
  (.accessed r.1, { s with machine := r.2 })

def obey (s : Session) : Command → Reply × Session
  | .assemble text => (.assembled (.ofText text), s)
  | .step text => (.stepped (s.step text).1, (s.step text).2)
  | .run source => (.ran (s.run source).1, (s.run source).2)
  | .reset => (.done, s.reset)
  | .readRegister name => s.access (((s.machine.readNamed name).mapError .unknownRegister).map .number, s.machine)
  | .writeRegister name value => s.access (settle .unknownRegister s.machine (s.machine.writeNamed name value))
  | .readMemory address length => (.bytes (s.machine.readBytes address length), s)
  | .writeMemory address bytes => s.access (settle .outOfBounds s.machine (s.machine.writeBytes address bytes))
  | .writeInteger address size value =>
    s.access (settle .outOfBounds s.machine (s.machine.writeInteger address size value))

/-- Obeys commands in order, whatever they answer. -/
def obeyAll (s : Session) : List Command → List Reply × Session
  | [] => ([], s)
  | c :: rest => ((s.obey c).1 :: ((s.obey c).2.obeyAll rest).1, ((s.obey c).2.obeyAll rest).2)

theorem obeyAll_induction {P : Session → Prop} (step : ∀ s c, P s → P (s.obey c).2) {s : Session} (hs : P s)
    (commands : List Command) : P (s.obeyAll commands).2 := by
  induction commands generalizing s with
  | nil => exact hs
  | cons c rest ih => exact ih (step s c hs)

end Session

namespace Machine.KeptByWrites

variable {P : Machine → Prop}

theorem settle_keeps {ε : Type} {wrap : ε → AccessError} {m : Machine} {r : Except ε Machine} (hm : P m)
    (h : ∀ m', r = .ok m' → P m') : P (settle wrap m r).2 := by
  cases r with
  | ok m' => exact h m' rfl
  | error e => exact hm

theorem attempt (hP : KeptByWrites P) {m : Machine} (hm : P m) (index : Nat) (i : Instruction) :
    P (m.attempt index i).2 := by
  unfold Machine.attempt
  split
  · rename_i m' h
    exact hP.execute h hm
  · exact hm

theorem attemptAll (hP : KeptByWrites P) {m : Machine} (hm : P m) (index : Nat) (is : List Instruction) :
    P (m.attemptAll index is).2.2 := by
  induction is generalizing m index with
  | nil => exact hm
  | cons i rest ih =>
    have hstep := hP.attempt hm index i
    unfold Machine.attemptAll
    dsimp only
    split
    · exact hstep
    · exact ih hstep (index + 1)

theorem writeBytes (hP : KeptByWrites P) {m m' : Machine} {address : Int} {bytes : List UInt8}
    (h : m.writeBytes address bytes = .ok m') (hm : P m) : P m' := by
  unfold Machine.writeBytes at h
  split at h
  · rename_i hc
    cases h
    exact hP.memory m address bytes hc hm
  · cases h

theorem writeNamed (hP : KeptByWrites P) {m m' : Machine} {name : String} {value : Int}
    (h : m.writeNamed name value = .ok m') (hm : P m) : P m' := by
  obtain ⟨r, -, rfl⟩ := map_eq_ok.1 h
  cases r with
  | view v => exact hP.view m v value hm
  | vector x => exact hP.vector m x value hm

theorem obey (hP : KeptByWrites P) (hreset : ∀ m, P m → P m.reset) {s : Session} (hs : P s.machine) (c : Command) :
    P (s.obey c).2.machine := by
  cases c with
  | assemble text => exact hs
  | step text =>
    simp only [Session.obey, Session.step]
    split
    · exact hs
    · exact hP.attempt hs _ _
  | run source =>
    simp only [Session.obey, Session.run]
    split
    · exact hs
    · exact hP.attemptAll hs 0 _
  | reset => exact hreset _ hs
  | readRegister name => exact hs
  | writeRegister name value => exact settle_keeps hs fun _ h => hP.writeNamed h hs
  | readMemory address length => exact hs
  | writeMemory address bytes => exact settle_keeps hs fun _ h => hP.writeBytes h hs
  | writeInteger address size value => exact settle_keeps hs fun _ h => hP.writeInteger h hs

theorem obeyAll (hP : KeptByWrites P) (hreset : ∀ m, P m → P m.reset) {s : Session} (hs : P s.machine)
    (commands : List Command) : P (s.obeyAll commands).2.machine :=
  Session.obeyAll_induction (P := fun s => P s.machine) (fun _ c h => hP.obey hreset h c) hs commands

end Machine.KeptByWrites

end LongMode

import LongMode.Session.Trace

/-!
# Sessions

A session is a machine with the trace of everything attempted on it since the last reset.

* Assembling a line reads and encodes it and changes nothing.
* A step reads one line and attempts it.
* A run reads all lines of a program first: if one cannot be read nothing is attempted.
-/

namespace LongMode

/-- What becomes of a line that is only assembled. -/
inductive Assembled
  | unread (error : ParseError)
  | unencodable (error : EncodeError)
  | encoded (instruction : Instruction) (bytes : List UInt8)
  deriving DecidableEq, Repr

def Assembled.ofText (text : List Char) : Assembled :=
  match Assembly.parse text with
  | .error e => .unread e
  | .ok i =>
    match i.encode with
    | .error e => .unencodable e
    | .ok bytes => .encoded i bytes

structure Session where
  machine : Machine
  trace : List TraceEntry

namespace Session

def create (size : Int) : Except CapacityError Session := (Machine.create size).map fun m => ⟨m, []⟩

def reset (s : Session) : Session := ⟨s.machine.reset, []⟩

/-- The entry of the attempted line, or why it cannot be read. -/
def step (s : Session) (text : List Char) : Except ParseError TraceEntry × Session :=
  match Assembly.parse text with
  | .error e => (.error e, s)
  | .ok i =>
    let (entry, m) := s.machine.attempt s.trace.length i
    (.ok entry, ⟨m, s.trace ++ [entry]⟩)

/-- The instructions of a program, or the index and the error of its first line that is none. -/
def readAll (index : Nat) : List (List Char) → Except (Nat × ParseError) (List Instruction)
  | [] => .ok []
  | line :: rest =>
    match Assembly.parse line with
    | .error e => .error (index, e)
    | .ok i => (readAll (index + 1) rest).map fun is => i :: is

def run (s : Session) (source : List Char) : RunReport × Session :=
  let lines := Assembly.programLines source
  match readAll 0 lines with
  | .error (index, e) => (⟨[], lines.length, some (index, .unread e)⟩, s)
  | .ok instructions =>
    let (report, m) := s.machine.run instructions
    (report, ⟨m, s.trace ++ report.entries⟩)

/-- How many attempted instructions were executed. -/
def executed (s : Session) : Nat := s.trace.countP TraceEntry.succeeded

/-- The faults of the others, in order. -/
def faults (s : Session) : List Fault := s.trace.filterMap TraceEntry.fault

end Session

/-- What became of the attempted instructions, and the machine after them. -/
structure Summary where
  executed : Nat
  state : Snapshot
  traceLength : Nat
  errors : List String
  deriving DecidableEq, Repr

def Session.summary (s : Session) : Summary :=
  ⟨s.executed, s.machine.snapshot, s.trace.length, s.faults.map Fault.message⟩

end LongMode

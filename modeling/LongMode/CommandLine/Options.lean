import LongMode.Machine.Basic
import LongMode.Text.DecimalDigit
import LongMode.Text.Literal
import LongMode.Text.Quoted

/-!
# Command-line options

* An option has a long spelling and most have a short one.  A long spelling may be cut short as long as it stays
  unique; its value follows after `=` or as the next argument.
* Short options without a value may share one argument, and one with a value may end it.  The value of a short option
  follows at once or as the next argument; an `=` after the first letter of the argument does not belong to it.
* A value `--` in the same argument as its option takes the option back.
* An argument that starts with a hyphen is still a value if it is a lone hyphen or looks like a negative number, or if
  it contains a space and names no option.  After `--` everything is a value.
* No value stands alone, so those that no option takes are reported together in the end.
-/

namespace LongMode.CommandLine

inductive Opt
  | help | program | inlineSource | memorySize | dump | trace | quiet | verbose
  deriving DecidableEq, Repr

namespace Opt

/-- The spellings of an option in the order in which a message shows them. -/
def spellings : Opt → List String
  | help => ["-h", "--help"]
  | program => ["--program", "-p"]
  | inlineSource => ["--inline", "-i"]
  | memorySize => ["--memory-size"]
  | dump => ["--dump"]
  | trace => ["--trace", "-t"]
  | quiet => ["--quiet", "-q"]
  | verbose => ["--verbose", "-v"]

def all : List Opt := [help, program, inlineSource, memorySize, dump, trace, quiet, verbose]

/-- Every spelling with its option. -/
def allSpellings : List (String × Opt) := all.flatMap fun o => o.spellings.map fun s => (s, o)

def takesValue : Opt → Bool
  | program | inlineSource | memorySize | dump => true
  | _ => false

def ofSpelling? (s : List Char) : Option Opt := (allSpellings.find? fun p => p.1.toList == s).map Prod.snd

end Opt

/-- What is wrong with a command line. -/
inductive UsageError
  | ambiguous (argument : List Char) (candidates : List String)
  | missingValue (option : Opt)
  | unusedValue (option : Opt) (value : List Char)
  | invalidNumber (option : Opt) (value : List Char)
  | invalidRange (option : Opt) (value : List Char)
  | unrecognized (arguments : List (List Char))
  | noSource
  | capacity (error : CapacityError)
  deriving DecidableEq, Repr

namespace UsageError

def about (o : Opt) (s : String) : String := "argument " ++ "/".intercalate o.spellings ++ ": " ++ s

def message : UsageError → String
  | ambiguous argument candidates =>
    "ambiguous option: " ++ String.ofList argument ++ " could match " ++ ", ".intercalate candidates
  | missingValue o => about o "expected one argument"
  | unusedValue o value => about o ("ignored explicit argument " ++ Text.quoted value)
  | invalidNumber o value => about o ("invalid <lambda> value: " ++ Text.quoted value)
  | invalidRange o value => about o ("Invalid dump range: " ++ String.ofList value)
  | unrecognized arguments => "unrecognized arguments: " ++ " ".intercalate (arguments.map String.ofList)
  | noSource => "Either --program or --inline is required"
  | capacity e => e.message

end UsageError

/-! ### Kinds of arguments -/

inductive Argument
  | value
  | separator
  | unknown
  | short (option : Opt) (rest : Option (List Char))
  | long (option : Opt) (value : Option (List Char))
  deriving DecidableEq, Repr

def isDecimal (s : List Char) : Bool := s.all fun c => (Text.decimalValue? c).isSome

/-- A hyphen before decimal digits, with a point before the last of them or without one; a line feed may follow. -/
def looksNegative : List Char → Bool
  | '-' :: s =>
    let s := if s.getLast? = some '\n' then s.dropLast else s
    let whole := s.takeWhile fun c => c != '.'
    match s.dropWhile fun c => c != '.' with
    | [] => isDecimal whole && !whole.isEmpty
    | _ :: fraction => isDecimal whole && isDecimal fraction && !fraction.isEmpty
  | _ => false

/-- What an argument with a hyphen is when it names no option. -/
def unnamed (s : List Char) : Argument := if looksNegative s || s.contains ' ' then .value else .unknown

/-- An argument with two hyphens: the part before `=` has to begin exactly one long spelling. -/
def classifyLong (s : List Char) : Except UsageError Argument :=
  let stem := s.takeWhile fun c => c != '='
  let value := match s.dropWhile fun c => c != '=' with
    | [] => none
    | _ :: v => some v
  match Opt.allSpellings.filter fun p => stem.isPrefixOf p.1.toList with
  | [] => .ok (unnamed s)
  | [(_, o)] => .ok (.long o value)
  | several => .error (.ambiguous s (several.map Prod.fst))

/-- What follows the letter of a short option, without an `=` in front of it. -/
def afterLetter : List Char → Option (List Char)
  | [] => none
  | '=' :: rest => some rest
  | rest => some rest

def classify (s : List Char) : Except UsageError Argument :=
  match s with
  | ['-', '-'] => .ok .separator
  | '-' :: '-' :: _ => classifyLong s
  | '-' :: c :: rest =>
    match Opt.ofSpelling? ['-', c] with
    | some o => .ok (.short o (afterLetter rest))
    | none => .ok (unnamed s)
  | _ => .ok .value

/-- Every argument with its kind.  What follows a separator is a value. -/
def classifyAll : List (List Char) → Except UsageError (List (List Char × Argument))
  | [] => .ok []
  | s :: rest => do
    match ← classify s with
    | .separator => return (s, .separator) :: rest.map fun r => (r, .value)
    | kind => return (s, kind) :: (← classifyAll rest)

/-! ### Settings -/

/-- What the options say.  The memory size is missing only where its option is taken back. -/
structure Settings where
  program : Option (List Char)
  inlineSource : Option (List Char)
  memorySize : Option Int
  dump : Option (Int × Int)
  trace : Bool
  quiet : Bool
  verbose : Bool
  deriving DecidableEq, Repr

def Settings.initial : Settings := ⟨none, none, some Machine.defaultCapacity, none, false, false, false⟩

/-- Why no settings come of a command line. -/
inductive Halt
  | help
  | error (cause : UsageError)
  deriving DecidableEq, Repr

/-- An address, and after a colon a size; the size is 64 where it is missing. -/
def readRange? (s : List Char) : Option (Int × Int) := do
  let size := (s.dropWhile fun c => c != ':').drop 1
  let address ← Text.literal? (s.takeWhile fun c => c != ':')
  return (address, ← if size.isEmpty then some 64 else Text.literal? size)

namespace Settings

def turnOn (c : Settings) : Opt → Except Halt Settings
  | .trace => .ok { c with trace := true }
  | .quiet => .ok { c with quiet := true }
  | .verbose => .ok { c with verbose := true }
  | .help => .error .help
  | _ => .ok c

def takeBack (c : Settings) : Opt → Settings
  | .program => { c with program := none }
  | .inlineSource => { c with inlineSource := none }
  | .memorySize => { c with memorySize := none }
  | .dump => { c with dump := none }
  | _ => c

def assign (c : Settings) (o : Opt) (value : List Char) : Except Halt Settings :=
  if value = ['-', '-'] then .ok (c.takeBack o)
  else
    match o with
    | .program => .ok { c with program := some value }
    | .inlineSource => .ok { c with inlineSource := some value }
    | .memorySize =>
      match Text.literal? value with
      | some n => .ok { c with memorySize := some n }
      | none => .error (.error (.invalidNumber o value))
    | .dump =>
      match readRange? value with
      | some r => .ok { c with dump := some r }
      | none => .error (.error (.invalidRange o value))
    | _ => .ok c

end Settings

/-- What one argument with options says: the options without value, then one with its value or one whose value is the
next argument. -/
structure Cluster where
  flags : List Opt
  assigned : Option (Opt × List Char)
  awaiting : Option Opt
  deriving DecidableEq, Repr

/-- An option with nothing after it in its argument. -/
def Cluster.single (o : Opt) : Cluster := if o.takesValue then ⟨[], none, some o⟩ else ⟨[o], none, none⟩

/-- An option of a short spelling with the characters after it. -/
def readCluster (o : Opt) : List Char → Except UsageError Cluster
  | [] => .ok (.single o)
  | c :: rest =>
    if o.takesValue then .ok ⟨[], some (o, c :: rest), none⟩
    else match Opt.ofSpelling? ['-', c] with
      | some next => (readCluster next rest).map fun k => { k with flags := o :: k.flags }
      | none => .error (.unusedValue o (c :: rest))

/-- An option of a long spelling with the value after `=`. -/
def readLong (o : Opt) : Option (List Char) → Except UsageError Cluster
  | none => .ok (.single o)
  | some v => if o.takesValue then .ok ⟨[], some (o, v), none⟩ else .error (.unusedValue o v)

/-- An option of a short spelling with what follows its letter: characters may be further options, an empty text can
only be a value. -/
def readShort (o : Opt) : Option (List Char) → Except UsageError Cluster
  | some (c :: rest) => readCluster o (c :: rest)
  | after => readLong o after

/-- Carries out what an argument says, up to a value that it awaits. -/
def Settings.applyCluster (c : Settings) (k : Cluster) : Except Halt Settings := do
  let c ← k.flags.foldlM turnOn c
  match k.assigned with
  | some (o, v) => c.assign o v
  | none => return c

/-- Reads classified arguments; the second result holds those that nothing takes. -/
def readArguments (c : Settings) : List (List Char × Argument) → Except Halt (Settings × List (List Char))
  | [] => .ok (c, [])
  | (s, kind) :: rest => do
    let cluster ← match kind with
      | .short o after => ((readShort o after).map some).mapError .error
      | .long o value => ((readLong o value).map some).mapError .error
      | _ => .ok none
    match cluster with
    | none =>
      let (c, extras) ← readArguments c rest
      return (c, s :: extras)
    | some k =>
      match k.awaiting with
      | none => readArguments (← c.applyCluster k) rest
      | some o =>
        match rest with
        | (v, .value) :: rest => readArguments (← (← c.applyCluster k).assign o v) rest
        | _ => .error (.error (.missingValue o))

/-- The settings that a command line gives. -/
def readSettings (arguments : List (List Char)) : Except Halt Settings := do
  let kinds ← (classifyAll arguments).mapError .error
  let (c, extras) ← readArguments Settings.initial kinds
  if !extras.isEmpty then .error (.error (.unrecognized extras))
  if c.program.all List.isEmpty && c.inlineSource.all List.isEmpty then .error (.error .noSource)
  return c

end LongMode.CommandLine

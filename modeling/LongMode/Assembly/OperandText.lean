import LongMode.Assembly.AddressExpression
import LongMode.Assembly.Piece
import LongMode.Register.Name

/-!
# Reading operands

One operand at a time: a register, a numeral, or a memory operand in brackets with an optional size keyword before
them.  An immediate, and a memory operand without a size, gets its width later from the whole instruction.
-/

namespace LongMode.Assembly

inductive RawOperand
  | register (view : View)
  | vector (register : VectorRegister)
  | immediate (value : Int)
  | memory (address : Address) (width : Option Width)
  deriving DecidableEq, Repr

/-- What follows a keyword and the white space after it. -/
def afterKeyword? (word : String) (s : List Char) : Option (List Char) :=
  if Text.spells (s.take word.length) word then some (Text.trimLeft (s.drop word.length)) else none

/-- A size keyword at the start of a text, and the text after it.  The word `ptr` may follow the keyword. -/
def leadingSize (s : List Char) : Option Width × List Char :=
  match Width.all.findSome? (fun w => (afterKeyword? w.keyword s).map fun r => (w, r)) with
  | some (w, r) => (some w, (afterKeyword? "ptr" r).getD r)
  | none => (none, s)

/-- The inside of a text that starts and ends with a bracket. -/
def insideBrackets? : List Char → Option (List Char)
  | '[' :: r => if r.getLast? = some ']' then some r.dropLast else none
  | _ => none

def readMemory (s : List Char) : Except Complaint RawOperand :=
  let (width, rest) := leadingSize s
  match insideBrackets? rest with
  | none => .error ⟨.malformedMemory s, s⟩
  | some inner => (readAddress s inner).map fun a => .memory a width

def readSimple (s : List Char) : Except Complaint RawOperand :=
  if Width.all.any (fun w => Text.spells (Text.firstWord s) w.keyword) then .error ⟨.sizeWithoutMemory s, s⟩
  else match Text.integer? s with
    | some z => .ok (.immediate z)
    | none =>
      if Text.isIdentifier s then
        match RegisterName.ofText? s with
        | some (.vector x) => .ok (.vector x)
        | some (.view v) => .ok (.register v)
        | none => .error ⟨.unknownRegister s, s⟩
      else .error ⟨.unreadableOperand s, s⟩

/-- Reads an operand without white space around it. -/
def readOperand (s : List Char) : Except Complaint RawOperand :=
  if s.contains '[' || s.contains ']' then readMemory s else readSimple s

/-- An operand and the column where it starts. -/
structure PlacedOperand where
  operand : RawOperand
  column : Nat
  deriving DecidableEq, Repr

def Piece.operand (p : Piece) : Except ParseError PlacedOperand :=
  match readOperand p.text with
  | .ok o => .ok ⟨o, p.column⟩
  | .error c => .error (c.located p.column)

end LongMode.Assembly

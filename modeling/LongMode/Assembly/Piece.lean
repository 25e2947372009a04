import LongMode.Assembly.Error
import LongMode.Text.Blank

/-!
# Operand pieces

The operands of an instruction are separated by the commas that stand outside brackets.

* `topLevelPieces` cuts a text at those commas and loses nothing else.
* `placed` gives each piece its column, `Piece.trimmed` removes the white space around it.
* Brackets must balance, and no piece may be blank.
-/

namespace LongMode.Assembly

/-- A part of a text with the column of its first character. -/
structure Piece where
  text : List Char
  column : Nat
  deriving DecidableEq, Repr

/-- White space at the ends goes; the column moves to the first character that stays. -/
def Piece.trimmed (p : Piece) : Piece :=
  ⟨Text.trim p.text, p.column + (p.text.takeWhile Text.isBlank).length⟩

/-- How many brackets are open after a character. -/
def depthAfter (depth : Nat) (c : Char) : Nat :=
  if c = '[' then depth + 1 else if c = ']' then depth - 1 else depth

/-- Puts a character in front of the first piece. -/
def prepend (c : Char) : List (List Char) → List (List Char)
  | [] => [[c]]
  | p :: rest => (c :: p) :: rest

/-- The parts of a text between its commas outside brackets, with `depth` brackets open at the start. -/
def topLevelPieces (depth : Nat) : List Char → List (List Char)
  | [] => [[]]
  | c :: r =>
    if c = ',' ∧ depth = 0 then [] :: topLevelPieces 0 r
    else prepend c (topLevelPieces (depthAfter depth c) r)

/-- Consecutive pieces with one comma between them, the first at `column`. -/
def placed (column : Nat) : List (List Char) → List Piece
  | [] => []
  | p :: rest => ⟨p, column⟩ :: placed (column + p.length + 1) rest

/-- The column of the first bracket that closes none. -/
def strayClose? (depth column : Nat) : List Char → Option Nat
  | [] => none
  | c :: r =>
    if c = ']' ∧ depth = 0 then some column else strayClose? (depthAfter depth c) (column + 1) r

/-- How many brackets a text leaves open. -/
def openBrackets (s : List Char) : Nat := s.foldl depthAfter 0

/-- The trimmed piece, unless it is blank. -/
def Piece.checked (p : Piece) : Except ParseError Piece :=
  if p.trimmed.text = [] then .error ⟨.emptyOperand, [], p.trimmed.column⟩ else .ok p.trimmed

/-- The operands in a text that starts at a column. -/
def splitOperands (column : Nat) (s : List Char) : Except ParseError (List Piece) :=
  if Text.trim s = [] then .ok []
  else match strayClose? 0 column s with
    | some c => .error ⟨.unbalancedClose, [']'], c⟩
    | none =>
      let pieces := placed column (topLevelPieces 0 s)
      if openBrackets s = 0 then pieces.mapM Piece.checked
      else .error ⟨.unbalancedOpen, ['['], (pieces.getLast?.map Piece.column).getD column⟩

end LongMode.Assembly

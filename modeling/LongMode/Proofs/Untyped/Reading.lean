import LongMode.Assembly.Line
import LongMode.Proofs.Untyped.Basic

/-!
# Reading untyped instructions

The reader, with every step that takes for granted what a step before it has found out: a text that matches the pattern
of numerals is converted, the first word is taken of an operand, a keyword of the pattern of memory operands is looked
up, a product is unpacked into two factors, and registers and widths are taken from the front of lists.
-/

namespace LongMode.Untyped

open LongMode.Assembly (Piece SumTerm prepend)

variable {ε α : Type}

/-! ### Numerals -/

/-- One or more digits of a radix. -/
def isDigits (radix : Nat) (s : List Char) : Bool := !s.isEmpty && s.all fun c => (Text.digit? radix c).isSome

def isUnsigned : List Char → Bool
  | '0' :: 'x' :: r => isDigits 16 r
  | '0' :: 'X' :: r => isDigits 16 r
  | '0' :: 'b' :: r => isDigits 2 r
  | '0' :: 'B' :: r => isDigits 2 r
  | s => isDigits 10 s

/-- The pattern of numerals. -/
def isNumeral : List Char → Bool
  | '+' :: r => isUnsigned r
  | '-' :: r => isUnsigned r
  | s => isUnsigned s

def digit (radix : Nat) (c : Char) : Partial ε Nat :=
  match Text.digit? radix c with
  | some d => .ok d
  | none => stuck .unreadableNumeral

/-- The number that digits stand for after a number already read. -/
def continueDigits (radix n : Nat) : List Char → Partial ε Nat
  | [] => .ok n
  | c :: r => do continueDigits radix (n * radix + (← digit radix c)) r

/-- The number that digits stand for.  Nothing but digits of the radix is converted. -/
def digits (radix : Nat) (s : List Char) : Partial ε Nat :=
  if s = [] then stuck .unreadableNumeral else continueDigits radix 0 s

def unsigned : List Char → Partial ε Nat
  | '0' :: 'X' :: r => digits 16 r
  | '0' :: 'B' :: r => digits 2 r
  | s => digits 10 s

/-- Converts a numeral, in capital letters. -/
def numeral (s : List Char) : Partial ε Int :=
  match s.map Char.toUpper with
  | '+' :: r => do return ((← unsigned r : Nat) : Int)
  | '-' :: r => do return -((← unsigned r : Nat) : Int)
  | r => do return ((← unsigned r : Nat) : Int)

/-! ### Addresses -/

/-- A text cut at every star. -/
def splitAtStars : List Char → List (List Char)
  | [] => [[]]
  | c :: r => if c = '*' then [] :: splitAtStars r else prepend c (splitAtStars r)

/-- The name of a register that may occur in an address. -/
def addressRegister (name : List Char) : Partial Complaint String :=
  if Text.isIdentifier name then
    match View.ofName? name with
    | some v => if v.bits = 64 then .ok v.name else refused ⟨.narrowAddressRegister name, name⟩
    | none =>
      if (VectorRegister.ofName? name).isSome then refused ⟨.narrowAddressRegister name, name⟩
      else refused ⟨.unknownRegister name, name⟩
  else refused ⟨.malformedTerm name, name⟩

inductive AddressPart
  | constant (value : Int)
  | plain (register : String)
  | scaled (register : String) (scale : Nat)

def scales : List Int := [1, 2, 4, 8]

/-- A product whose factor has been told from its register. -/
def scaledPart (t : SumTerm) (factor register : List Char) : Partial Complaint AddressPart :=
  if t.negative || !isNumeral factor then refused ⟨.malformedProduct t.body, t.body⟩
  else do
    let scale ← numeral factor
    if scales.contains scale then return .scaled (← addressRegister register) scale.toNat
    else refused ⟨.badScale scale.toNat, factor⟩

/-- A product of a register and a scale, in either order. -/
def productPart (t : SumTerm) : Partial Complaint AddressPart :=
  let parts := splitAtStars t.body
  if parts.length ≠ 2 then refused ⟨.malformedProduct t.body, t.body⟩
  else do
    let (left, right) ← double parts
    if isNumeral left then scaledPart t left right else scaledPart t right left

/-- A constant or a register. -/
def simplePart (t : SumTerm) : Partial Complaint AddressPart :=
  if isNumeral t.body then do
    let value ← numeral t.body
    return .constant (if t.negative then -value else value)
  else if t.negative then refused ⟨.subtractedRegister ('-' :: t.body), '-' :: t.body⟩
  else return .plain (← addressRegister t.body)

def addressPart (t : SumTerm) : Partial Complaint AddressPart :=
  if t.body.contains '*' then productPart t else simplePart t

def constants (parts : List AddressPart) : List Int :=
  parts.filterMap fun | .constant n => some n | _ => none

def plainRegisters (parts : List AddressPart) : List String :=
  parts.filterMap fun | .plain x => some x | _ => none

def scaledRegisters (parts : List AddressPart) : List (String × Nat) :=
  parts.filterMap fun | .scaled x s => some (x, s) | _ => none

/-- The first of some registers, if there are any. -/
def first? (l : List α) : Partial ε (Option α) := if l = [] then return none else return some (← element l 0)

/-- The second of some registers, if there are so many. -/
def second? (l : List α) : Partial ε (Option α) :=
  if 1 < l.length then return some (← element l 1) else return none

/-- Base, index and scale from the plain and the scaled registers. -/
def baseAndIndex (plain : List String) (scaled : List (String × Nat)) :
    Partial ε (Option String × Option String × Nat) :=
  if scaled ≠ [] then do
    let (index, scale) ← element scaled 0
    let base ← first? plain
    if base = none ∧ scale = 1 then return (some index, none, 1) else return (base, some index, scale)
  else if plain ≠ [] then do
    return (some (← element plain 0), ← second? plain, 1)
  else return (none, none, 1)

/-- An operand before its width is known. -/
inductive RawOperand
  | register (name : String) (width : Nat)
  | immediate (value : Int)
  | memory (base index : Option String) (scale : Nat) (displacement : Int) (width : Option Nat)

/-- The memory operand that the parts add up to. -/
def memoryOfParts (operand : List Char) (width : Option Nat) (parts : List AddressPart) :
    Partial Complaint RawOperand :=
  let plain := plainRegisters parts
  let scaled := scaledRegisters parts
  if 1 < scaled.length ∨ 2 < plain.length + scaled.length then
    refused ⟨.tooManyAddressRegisters operand, operand⟩
  else do
    let (base, index, scale) ← baseAndIndex plain scaled
    if base = none ∧ constants parts = [] then refused ⟨.noBase operand, operand⟩
    else if index = some "rsp" then
      if scale = 1 ∧ base ≠ some "rsp" then return .memory index base scale (constants parts).sum width
      else refused ⟨.stackPointerIndex, "rsp".toList⟩
    else return .memory base index scale (constants parts).sum width

/-! ### Operands -/

def sizeKeywords : List (String × Nat) := [("byte", 8), ("word", 16), ("dword", 32), ("qword", 64)]

/-- The size keyword at the start of a text as it is written, and the text after it. -/
def leadingKeyword (s : List Char) : Option (List Char) × List Char :=
  match sizeKeywords.find? fun (word, _) => Text.spells (s.take word.length) word with
  | some (word, _) =>
    let r := Text.trimLeft (s.drop word.length)
    (some (s.take word.length), (Assembly.afterKeyword? "ptr" r).getD r)
  | none => (none, s)

/-- The width that a keyword stands for. -/
def keywordWidth (word : List Char) : Partial ε Nat := find sizeKeywords (String.ofList (Text.lower word))

def readMemoryOperand (s : List Char) : Partial Complaint RawOperand :=
  let (word, rest) := leadingKeyword s
  match Assembly.insideBrackets? rest with
  | none => refused ⟨.malformedMemory s, s⟩
  | some inner => do
    let width ← word.mapM keywordWidth
    match Assembly.sumTerms? (Text.withoutBlanks inner) with
    | none => refused ⟨.malformedSum s, s⟩
    | some terms => memoryOfParts s width (← terms.mapM addressPart)

/-- The words of a text. -/
def words : List Char → List (List Char)
  | [] => []
  | c :: r =>
    if Text.isBlank c then words r
    else if r.head?.all Text.isBlank then [c] :: words r
    else prepend c (words r)

def readSimpleOperand (s : List Char) : Partial Complaint RawOperand := do
  let word ← element (words s) 0
  if (sizeKeywords.lookup (String.ofList (Text.lower word))).isSome then refused ⟨.sizeWithoutMemory s, s⟩
  else if isNumeral s then return .immediate (← numeral s)
  else if Text.isIdentifier s then
    match VectorRegister.ofName? s with
    | some _ => return .register (String.ofList (Text.lower s)) VectorRegister.bits
    | none =>
      match View.ofName? s with
      | some v => return .register v.name v.bits
      | none => refused ⟨.unknownRegister s, s⟩
  else refused ⟨.unreadableOperand s, s⟩

def readOperand (s : List Char) : Partial Complaint RawOperand :=
  if s.contains '[' || s.contains ']' then readMemoryOperand s else readSimpleOperand s

structure PlacedOperand where
  operand : RawOperand
  column : Nat

def located (column : Nat) : Partial Complaint α → Partial ParseError α
  | .ok a => .ok a
  | .error (.refused c) => refused (c.located column)
  | .error (.stuck reason) => stuck reason

def readPiece (p : Piece) : Partial ParseError PlacedOperand := do
  return ⟨← located p.column (readOperand p.text), p.column⟩

/-! ### Widths -/

/-- The widths of the registers that may size a memory operand. -/
def sizingWidths (m : Mnemonic) (operands : List PlacedOperand) : List Nat :=
  operands.zipIdx.filterMap fun (p, k) =>
    match p.operand with
    | .register _ w => if w = VectorRegister.bits ∨ m.isShift ∧ k = 1 then none else some w
    | _ => none

/-- The width of a memory operand that no keyword sizes. -/
def impliedWidth (m : Mnemonic) (k : Nat) (widths : List Nat) : Partial ε (Option Nat) :=
  if m = .push ∨ m = .pop then return some 64
  else if m = .movsxd ∧ k = 1 then return some 32
  else if m.isWidening ∧ k = 1 then return none
  else if m = .lea then do return some ((← first? widths).getD 64)
  else if m.isShift then return none
  else first? widths

/-- The width that a keyword gives goes before the one that is implied. -/
def memoryWidth (m : Mnemonic) (k : Nat) (widths : List Nat) (width : Option Nat) : Partial ε (Option Nat) :=
  if width = none then impliedWidth m k widths else return width

/-- An operand, with the width of an immediate still open. -/
inductive SizedOperand
  | known (operand : Operand)
  | literal (value : Int) (column : Nat)

def sizeMemory (m : Mnemonic) (widths : List Nat) (p : PlacedOperand) (k : Nat) : Partial ParseError SizedOperand :=
  match p.operand with
  | .register name w => return .known (.register name w)
  | .immediate z => return .literal z p.column
  | .memory base index scale displacement width => do
    match ← memoryWidth m k widths width with
    | some w => return .known (.memory base index scale displacement w)
    | none => refused ⟨.unknownSize, ['['], p.column⟩

/-- The width of an immediate that takes it from the first operand. -/
def widthOfFirst (sized : List SizedOperand) (z : Int) (column : Nat) : Partial ParseError Nat := do
  match ← element sized 0 with
  | .known o => return o.width
  | .literal _ _ => refused ⟨.immediateDestination z, (Text.decimal z).toList, column⟩

def sizeImmediate (m : Mnemonic) (sized : List SizedOperand) (o : SizedOperand) (k : Nat) :
    Partial ParseError Operand :=
  match o with
  | .known o => return o
  | .literal z column =>
    if m.isShift ∧ k = 1 then return .immediate z 8
    else if m = .push then return .immediate z 64
    else if k = 0 then refused ⟨.immediateDestination z, (Text.decimal z).toList, column⟩
    else do return .immediate z (← widthOfFirst sized z column)

def resolveWidths (m : Mnemonic) (operands : List PlacedOperand) : Partial ParseError (List Operand) := do
  let widths := sizingWidths m operands
  let sized ← operands.zipIdx.mapM fun (p, k) => sizeMemory m widths p k
  sized.zipIdx.mapM fun (o, k) => sizeImmediate m sized o k

/-! ### Instructions -/

/-- Reads one instruction. -/
def parse (text : List Char) : Partial ParseError Instruction := do
  let line := Assembly.withoutComment text
  let column := (line.takeWhile Text.isBlank).length
  let word := Text.firstWord (Text.trimLeft line)
  if word = [] then refused ⟨.emptyInstruction, [], 0⟩
  let m ← settled (Assembly.readMnemonic word column)
  let pieces ← settled (Assembly.splitOperands (column + word.length) (line.drop (column + word.length)))
  let operands ← pieces.mapM readPiece
  let counts ← operandCounts m
  if !counts.contains operands.length then refused ⟨.operandCount m operands.length, word, column⟩
  return ⟨m, ← resolveWidths m operands⟩

end LongMode.Untyped

import LongMode.Assembly.Error
import LongMode.Instruction.Operand
import LongMode.Text.Blank

/-!
# Address expressions

What stands between the brackets of a memory operand: a sum of constants, registers and products of a register and a
scale, in any order and with white space anywhere.

* Constants add up to the displacement and may be subtracted.
* At most two registers occur, at most one of them in a product.  A product by one is a plain register.
* There is a constant or a base register.
* rsp is never scaled; in the place of an unscaled index it changes places with the base.
-/

namespace LongMode.Assembly

/-- A term of a sum, without its sign. -/
structure SumTerm where
  negative : Bool
  body : List Char
  deriving DecidableEq, Repr

def isSign (c : Char) : Bool := c == '+' || c == '-'

/-- What stands before the first sign, and the terms after it. -/
def cutAtSigns : List Char → List Char × List SumTerm
  | [] => ([], [])
  | c :: r =>
    let (head, rest) := cutAtSigns r
    if isSign c then ([], ⟨c == '-', head⟩ :: rest) else (c :: head, rest)

/-- The terms of a sum.  Only the first may lack a sign, and none is empty. -/
def sumTerms? (s : List Char) : Option (List SumTerm) :=
  let (head, rest) := cutAtSigns s
  let terms := if head = [] then rest else ⟨false, head⟩ :: rest
  if terms = [] ∨ terms.any (fun t => t.body.isEmpty) then none else some terms

/-- The meaning of a term. -/
inductive AddressPart
  | constant (value : Int)
  | plain (register : Cell)
  | scaled (register : Cell) (scale : Scale)
  deriving DecidableEq, Repr

/-- Only the 64-bit views may occur in an address. -/
def addressRegister (name : List Char) : Except Complaint Cell :=
  if Text.isIdentifier name then
    match View.ofName? name with
    | some (.low c .qword) => .ok c
    | some _ => .error ⟨.narrowAddressRegister name, name⟩
    | none =>
      if (VectorRegister.ofName? name).isSome then .error ⟨.narrowAddressRegister name, name⟩
      else .error ⟨.unknownRegister name, name⟩
  else .error ⟨.malformedTerm name, name⟩

/-- A product: the numeral may be on either side, and the left side is tried first. -/
def productPart (t : SumTerm) : Except Complaint AddressPart :=
  let left := t.body.takeWhile (fun c => c != '*')
  let right := (t.body.dropWhile (fun c => c != '*')).drop 1
  let (factor, register) := if (Text.unsigned? left).isSome then (left, right) else (right, left)
  match t.negative, Text.unsigned? factor with
  | false, some n =>
    match Scale.ofFactor? n with
    | some s => (addressRegister register).map fun c => .scaled c s
    | none => .error ⟨.badScale n, factor⟩
  | _, _ => .error ⟨.malformedProduct t.body, t.body⟩

/-- A constant or a register. -/
def simplePart (t : SumTerm) : Except Complaint AddressPart :=
  match Text.unsigned? t.body with
  | some n => .ok (.constant (if t.negative then -n else n))
  | none =>
    if t.negative then .error ⟨.subtractedRegister ('-' :: t.body), '-' :: t.body⟩
    else (addressRegister t.body).map .plain

def SumTerm.part (t : SumTerm) : Except Complaint AddressPart :=
  match t.body.count '*' with
  | 0 => simplePart t
  | 1 => productPart t
  | _ => .error ⟨.malformedProduct t.body, t.body⟩

def constants (parts : List AddressPart) : List Int :=
  parts.filterMap fun | .constant n => some n | _ => none

def plainRegisters (parts : List AddressPart) : List Cell :=
  parts.filterMap fun | .plain c => some c | _ => none

def scaledRegisters (parts : List AddressPart) : List (Cell × Scale) :=
  parts.filterMap fun | .scaled c s => some (c, s) | _ => none

/-- Base, index and scale from the plain and the scaled registers. -/
def baseAndIndex : List Cell → List (Cell × Scale) → Option Cell × Option Cell × Scale
  | [], [(c, .one)] => (some c, none, .one)
  | plain, (c, s) :: _ => (plain.head?, some c, s)
  | plain, [] => (plain.head?, plain[1]?, .one)

/-- The address that the parts add up to.  `operand` is the text that an error quotes. -/
def addressOfParts (operand : List Char) (parts : List AddressPart) : Except Complaint Address :=
  let plain := plainRegisters parts
  let scaled := scaledRegisters parts
  if 1 < scaled.length ∨ 2 < plain.length + scaled.length then
    .error ⟨.tooManyAddressRegisters operand, operand⟩
  else
    let (base, index, scale) := baseAndIndex plain scaled
    if base = none ∧ constants parts = [] then .error ⟨.noBase operand, operand⟩
    else if index = some .rsp then
      if scale = .one ∧ base ≠ some .rsp then .ok ⟨index, base, scale, (constants parts).sum⟩
      else .error ⟨.stackPointerIndex, Cell.rsp.name.toList⟩
    else .ok ⟨base, index, scale, (constants parts).sum⟩

/-- Reads what stands between the brackets. -/
def readAddress (operand inner : List Char) : Except Complaint Address :=
  match sumTerms? (Text.withoutBlanks inner) with
  | none => .error ⟨.malformedSum operand, operand⟩
  | some terms => do addressOfParts operand (← terms.mapM SumTerm.part)

end LongMode.Assembly

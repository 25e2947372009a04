import LongMode.Assembly.OperandText

/-!
# Widths of operands

A memory operand without a size keyword takes its width from the mnemonic or from the first general-purpose register
among the operands; the count of a shift says nothing about it.  An immediate takes the width of the first operand,
but a shift count has 8 bits and a pushed immediate 64.  Only a push may have an immediate first.
-/

namespace LongMode.Assembly

/-- The widths of the general-purpose registers that may size a memory operand. -/
def sizingWidths (m : Mnemonic) (operands : List PlacedOperand) : List Width :=
  operands.zipIdx.filterMap fun (p, i) =>
    match p.operand with
    | .register v => if m.isShift ∧ i = 1 then none else some v.width
    | _ => none

/-- The width of a memory operand at a position, where no size keyword gives it. -/
def impliedWidth? (m : Mnemonic) (position : Nat) (widths : List Width) : Option Width :=
  if m = .push ∨ m = .pop then some .qword
  else if m = .movsxd ∧ position = 1 then some .dword
  else if m.isWidening ∧ position = 1 then none
  else if m = .lea then some (widths.headD .qword)
  else if m.isShift then none
  else widths.head?

/-- An operand, with the width of an immediate still open. -/
inductive SizedOperand
  | known (operand : Operand)
  | literal (value : Int) (column : Nat)
  deriving DecidableEq, Repr

def sizeMemory (m : Mnemonic) (widths : List Width) (p : PlacedOperand) (position : Nat) :
    Except ParseError SizedOperand :=
  match p.operand with
  | .register v => .ok (.known (.register v))
  | .vector x => .ok (.known (.vector x))
  | .immediate z => .ok (.literal z p.column)
  | .memory a width =>
    match width.or (impliedWidth? m position widths) with
    | some w => .ok (.known (.memory ⟨a, w⟩))
    | none => .error ⟨.unknownSize, ['['], p.column⟩

/-- The width of an immediate at a position, if one may stand there. -/
def immediateBits? (m : Mnemonic) (position : Nat) (first : Option SizedOperand) : Option Nat :=
  if m.isShift ∧ position = 1 then some 8
  else if m = .push then some 64
  else if position = 0 then none
  else match first with
    | some (.known o) => some o.bits
    | _ => none

def sizeImmediate (m : Mnemonic) (first : Option SizedOperand) (o : SizedOperand) (position : Nat) :
    Except ParseError Operand :=
  match o with
  | .known o => .ok o
  | .literal z column =>
    match immediateBits? m position first with
    | some bits => .ok (.immediate z bits)
    | none => .error ⟨.immediateDestination z, (Text.decimal z).toList, column⟩

/-- Gives every operand its width: memory operands first, then immediates. -/
def resolveWidths (m : Mnemonic) (operands : List PlacedOperand) : Except ParseError (List Operand) := do
  let widths := sizingWidths m operands
  let sized ← operands.zipIdx.mapM fun (p, i) => sizeMemory m widths p i
  sized.zipIdx.mapM fun (o, i) => sizeImmediate m sized.head? o i

end LongMode.Assembly

import LongMode.Text.Blank
import LongMode.Text.DecimalDigit
import LongMode.Text.Numeral

/-!
# Integer literals

Numbers given as options follow a wider grammar than the numerals of an instruction: white space around the literal,
a sign, one of the radix markers `0x`, `0o` and `0b` in either case, and single underscores between digits or after
the marker.  A decimal literal that starts with zero must be zero.  Decimal digits of any script count.
-/

namespace LongMode.Text

/-- The literal with its white space and digits in ASCII.  A text that is all ASCII is taken as it stands. -/
def asciiLiteral (s : List Char) : List Char :=
  if s.all (fun c => c.toNat < 128) then s
  else s.map fun c =>
    if c.toNat < 127 then c
    else if isBlank c then ' '
    else match decimalValue? c with
      | some d => Char.ofNat (48 + d)
      | none => c

/-- The white space that may surround a literal: the space and the controls from tab to carriage return. -/
def surroundsLiteral (c : Char) : Bool := c == ' ' || (9 ≤ c.toNat && c.toNat ≤ 13)

/-- Digits of a radix with single underscores between them. -/
def groupedDigits? (radix : Nat) (n : Nat) : List Char → Option Nat
  | [] => some n
  | '_' :: c :: r => (digit? radix c).bind fun d => groupedDigits? radix (n * radix + d) r
  | c :: r => (digit? radix c).bind fun d => groupedDigits? radix (n * radix + d) r

/-- One or more grouped digits, the first of them no underscore. -/
def grouped? (radix : Nat) : List Char → Option Nat
  | [] => none
  | '_' :: _ => none
  | s => groupedDigits? radix 0 s

/-- What follows a radix marker: an underscore may come first. -/
def markedDigits? (radix : Nat) : List Char → Option Nat
  | '_' :: r => grouped? radix r
  | r => grouped? radix r

/-- A literal without sign and white space. -/
def unsignedLiteral? : List Char → Option Nat
  | '0' :: 'x' :: r => markedDigits? 16 r
  | '0' :: 'X' :: r => markedDigits? 16 r
  | '0' :: 'o' :: r => markedDigits? 8 r
  | '0' :: 'O' :: r => markedDigits? 8 r
  | '0' :: 'b' :: r => markedDigits? 2 r
  | '0' :: 'B' :: r => markedDigits? 2 r
  | '0' :: r => (grouped? 10 ('0' :: r)).filter (fun n => n == 0)
  | r => grouped? 10 r

/-- The value of an integer literal. -/
def literal? (s : List Char) : Option Int :=
  let body := ((asciiLiteral s).dropWhile surroundsLiteral).reverse.dropWhile surroundsLiteral |>.reverse
  match body with
  | '+' :: r => (unsignedLiteral? r).map fun n => (n : Int)
  | '-' :: r => (unsignedLiteral? r).map fun n => -(n : Int)
  | r => (unsignedLiteral? r).map fun n => (n : Int)

end LongMode.Text

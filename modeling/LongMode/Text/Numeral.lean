/-!
# Numerals

* `integer?` reads an optional sign followed by `0x` and hexadecimal digits, `0b` and binary digits, or decimal
  digits; letters may have either case and leading zeros do not matter;
* `hex` and `signedHex` write what `integer?` reads back: `0x2a`, `-0x7`;
* `decimal` writes a number in decimal;
* `paddedHex` fills a numeral with zeros up to a total width that counts the sign and the `0x`.

Nothing limits the number of digits: numerals of any length are read, and numbers of any size are written.
-/

namespace LongMode.Text

/-- The value of a digit, the letters `a` to `f` of either case standing for ten to fifteen. -/
def digitValue? (c : Char) : Option Nat :=
  if '0' ≤ c ∧ c ≤ '9' then some (c.toNat - 48)
  else if 'a' ≤ c ∧ c ≤ 'f' then some (c.toNat - 87)
  else if 'A' ≤ c ∧ c ≤ 'F' then some (c.toNat - 55)
  else none

/-- A digit of the given radix. -/
def digit? (radix : Nat) (c : Char) : Option Nat := (digitValue? c).filter (fun d => d < radix)

/-- The number that digits denote after a number already read, most significant digit first. -/
def continueNatural? (radix : Nat) (n : Nat) : List Char → Option Nat
  | [] => some n
  | c :: r => (digit? radix c).bind fun d => continueNatural? radix (n * radix + d) r

/-- The number that one or more digits denote. -/
def natural? (radix : Nat) : List Char → Option Nat
  | [] => none
  | c :: r => continueNatural? radix 0 (c :: r)

/-- A numeral without a sign. -/
def unsigned? : List Char → Option Nat
  | '0' :: 'x' :: r => natural? 16 r
  | '0' :: 'X' :: r => natural? 16 r
  | '0' :: 'b' :: r => natural? 2 r
  | '0' :: 'B' :: r => natural? 2 r
  | s => natural? 10 s

/-- A numeral with an optional sign. -/
def integer? : List Char → Option Int
  | '+' :: r => (unsigned? r).map fun n => (n : Int)
  | '-' :: r => (unsigned? r).map fun n => -(n : Int)
  | s => (unsigned? s).map fun n => (n : Int)

/-- Hexadecimal digits in small letters. -/
def hexDigits (n : Nat) : String := String.ofList (Nat.toDigits 16 n)

def hex (n : Nat) : String := "0x" ++ hexDigits n

/-- The sign comes before the `0x`. -/
def signedHex (z : Int) : String := if z < 0 then "-" ++ hex z.natAbs else hex z.natAbs

def decimal (z : Int) : String := if z < 0 then "-" ++ toString z.natAbs else toString z.natAbs

/-- Fills up on the left to a width. -/
def padLeft (width : Nat) (fill : Char) (s : String) : String :=
  String.ofList (List.replicate (width - s.length) fill) ++ s

/-- Fills up on the right to a width. -/
def padRight (width : Nat) (fill : Char) (s : String) : String :=
  s ++ String.ofList (List.replicate (width - s.length) fill)

/-- Hexadecimal with leading zeros, `width` characters in all unless the number needs more. -/
def paddedHex (width : Nat) (z : Int) : String :=
  let lead := if z < 0 then "-0x" else "0x"
  lead ++ padLeft (width - lead.length) '0' (hexDigits z.natAbs)

end LongMode.Text

import LongMode.Text.Numeral
import LongMode.Text.Printable

/-!
# Quoted text

`quoted` writes a text between quotation marks so that everything in it can be seen.  The marks are single unless the
text holds a single mark and no double one.  The mark in use and the backslash take a backslash; line feed, carriage
return and tab have short forms; any other unprintable character is written by its code point, with two, four or
eight hexadecimal digits.
-/

namespace LongMode.Text

/-- The code point in the shortest of the three numbered forms. -/
def numberedEscape (n : Nat) : String :=
  if n < 0x100 then "\\x" ++ padLeft 2 '0' (hexDigits n)
  else if n < 0x10000 then "\\u" ++ padLeft 4 '0' (hexDigits n)
  else "\\U" ++ padLeft 8 '0' (hexDigits n)

/-- One character between marks of the given kind. -/
def quotedChar (mark c : Char) : String :=
  if c = mark ∨ c = '\\' then String.ofList ['\\', c]
  else if c = '\n' then "\\n"
  else if c = '\r' then "\\r"
  else if c = '\t' then "\\t"
  else if isPrintable c then String.singleton c
  else numberedEscape c.toNat

/-- The mark that `quoted` chooses. -/
def quotationMark (s : List Char) : Char :=
  if s.contains '\x27' && !s.contains '\x22' then '\x22' else '\x27'

def quoted (s : List Char) : String :=
  let mark := quotationMark s
  String.singleton mark ++ String.join (s.map (quotedChar mark)) ++ String.singleton mark

end LongMode.Text

/-!
# Letter case and identifiers

Names and keywords are written in ASCII and read in any case, so `lower` maps the ASCII letters only.  Besides them
an identifier may hold the four letters whose case variants are ASCII letters: dotted capital I, dotless i, long s
and the Kelvin sign.  No name of the instruction set holds one, so such an identifier is read and then not found.
-/

namespace LongMode.Text

/-- The text in small letters. -/
def lower (s : List Char) : List Char := s.map Char.toLower

/-- Whether a text spells a name, in any case. -/
def spells (s : List Char) (name : String) : Bool := lower s == name.toList

/-- Letters, with the four that fold to an ASCII letter, and the underscore. -/
def startsIdentifier (c : Char) : Bool :=
  c.isAlpha || c == '_' || c.toNat == 0x130 || c.toNat == 0x131 || c.toNat == 0x17F || c.toNat == 0x212A

def continuesIdentifier (c : Char) : Bool := startsIdentifier c || c.isDigit

def isIdentifier : List Char → Bool
  | [] => false
  | c :: r => startsIdentifier c && r.all continuesIdentifier

end LongMode.Text

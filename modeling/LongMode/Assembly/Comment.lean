/-!
# Comments

A comment starts at a semicolon or a number sign and ends with its line.  Only the last line of a text has its comment
removed; a single line feed after it is kept.
-/

namespace LongMode.Assembly

def startsComment (c : Char) : Bool := c == ';' || c == '#'

/-- What follows the line that a text starts in, with its line feed. -/
def afterLine (s : List Char) : List Char := s.dropWhile (fun c => c != '\n')

/-- The text without the comment of its last line. -/
def withoutComment : List Char → List Char
  | [] => []
  | c :: r => if startsComment c && (afterLine r).length ≤ 1 then afterLine r else c :: withoutComment r

end LongMode.Assembly

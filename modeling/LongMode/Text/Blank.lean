/-!
# White space

* `isBlank` holds of exactly twenty-nine code points: the ASCII controls from tab to carriage return and from file
  to unit separator, the space, next line, no-break space, and the space, line and paragraph separators of Unicode;
* `trim` removes them at both ends, `firstWord` reads up to the first of them.
-/

namespace LongMode.Text

/-- The code points that separate words. -/
def isBlank (c : Char) : Bool :=
  let n := c.toNat
  (9 ≤ n && n ≤ 13) || (28 ≤ n && n ≤ 32) || n == 0x85 || n == 0xA0 || n == 0x1680 || (0x2000 ≤ n && n ≤ 0x200A) ||
    n == 0x2028 || n == 0x2029 || n == 0x202F || n == 0x205F || n == 0x3000

def trimLeft (s : List Char) : List Char := s.dropWhile isBlank

def trimRight (s : List Char) : List Char := (s.reverse.dropWhile isBlank).reverse

def trim (s : List Char) : List Char := trimRight (trimLeft s)

/-- The text without any white space. -/
def withoutBlanks (s : List Char) : List Char := s.filter (fun c => !isBlank c)

/-- The longest beginning without white space. -/
def firstWord (s : List Char) : List Char := s.takeWhile (fun c => !isBlank c)

end LongMode.Text

import LongMode.Assembly.Line

/-!
# Programs

A program has one instruction on a line.  Comments and blank lines do not count, and lines are numbered without them.
-/

namespace LongMode.Assembly

/-- The parts of a text between its line feeds. -/
def splitLines : List Char → List (List Char)
  | [] => [[]]
  | c :: r => if c = '\n' then [] :: splitLines r else prepend c (splitLines r)

/-- A line without its comment and the white space around it. -/
def bareLine (line : List Char) : List Char := Text.trim (withoutComment line)

/-- The lines of a program that hold an instruction. -/
def programLines (source : List Char) : List (List Char) :=
  ((splitLines source).map bareLine).filter fun line => !line.isEmpty

end LongMode.Assembly

/-!
# Scanning document text

Small scanners over the text left to read, shared by the readers of blocks and of running text.
Here a blank is a space or a tab, and a line ends in a newline or with the text.
-/

namespace ApiPages
namespace Markdown
namespace Scan

def isBlank (c : Char) : Bool := c == ' ' || c == '\t'

/-- White space of running text. -/
def isSpace (c : Char) : Bool :=
  c == ' ' || c == '\t' || c == '\n' || c == '\r' || c == '\x0c' || c == '\x0b'

/-- The first line without its newline. -/
def line (cs : List Char) : List Char := cs.takeWhile (· != '\n')

/-- The text from the end of the first line on, its newline included. -/
def fromLineEnd (cs : List Char) : List Char := cs.dropWhile (· != '\n')

/-- The text after the first line. -/
def afterLine (cs : List Char) : List Char := (fromLineEnd cs).drop 1

/-- The first line with its newline, if it has one. -/
def wholeLine (cs : List Char) : List Char :=
  if (fromLineEnd cs).isEmpty then cs else line cs ++ ['\n']

/-- Drops a character at most `n` times. -/
def skipUpTo (n : Nat) (c : Char) (cs : List Char) : List Char :=
  cs.drop (min n (cs.takeWhile (· == c)).length)

def skip (c : Char) (cs : List Char) : List Char := cs.dropWhile (· == c)

/-- The text without the first line, if that line is blank. -/
def blankLine? (cs : List Char) : Option (List Char) :=
  if cs.isEmpty || !(line cs).all isBlank then none else some (afterLine cs)

/-- What was read when `rest` is left of `cs`. -/
def consumed (cs rest : List Char) : List Char := cs.take (cs.length - rest.length)

/-- Whether the characters just before a point end in an odd number of backslashes.  They are given
in reverse. -/
def isEscaped (before : List Char) : Bool :=
  (before.takeWhile (· == '\\')).length % 2 == 1

end Scan
end Markdown
end ApiPages

/-!
# Blank characters

Two classes of white space occur in the inputs.

* `Text.isBlank` is the Unicode class, used when text is trimmed or cut into words;
* `Text.isSpace` is the five-character ASCII class, used by the line recognisers.

On top of them stand `trimLeft`, `trimRight`, `trim` on character lists, `strip` on strings and
`words`, the maximal runs of non-blank characters.
-/

namespace ApiPages
namespace Text

/-! ## Classes -/

/-- White space in the Unicode sense. -/
def isBlank (c : Char) : Bool :=
  let n := c.toNat
  (9 ≤ n && n ≤ 13) || n == 0x20 || n == 0x85 || n == 0xA0 || n == 0x1680 ||
    (0x2000 ≤ n && n ≤ 0x200A) || n == 0x2028 || n == 0x2029 || n == 0x202F ||
    n == 0x205F || n == 0x3000

/-- Tab, newline, form feed, carriage return and space. -/
def isSpace (c : Char) : Bool :=
  c == ' ' || c == '\t' || c == '\n' || c == '\r' || c == '\x0c'

/-- ASCII letters, digits and the underscore. -/
def isWord (c : Char) : Bool :=
  c.isAlphanum || c == '_'

/-! ## Trimming -/

def trimLeft (cs : List Char) : List Char :=
  cs.dropWhile isBlank

def trimRight (cs : List Char) : List Char :=
  (cs.reverse.dropWhile isBlank).reverse

def trim (cs : List Char) : List Char :=
  trimRight (trimLeft cs)

/-- Drops the characters of a class from the end only. -/
def trimEnd (p : Char → Bool) (cs : List Char) : List Char :=
  (cs.reverse.dropWhile p).reverse

/-- A string without the blanks at its two ends. -/
def strip (s : String) : String :=
  String.ofList (trim s.toList)

/-! ## Words -/

/-- The maximal runs of non-blank characters, in order. -/
def words (cs : List Char) : List (List Char) :=
  (cs.splitOnP isBlank).filter (fun w => !w.isEmpty)

end Text
end ApiPages

import ApiPages.Text.Blank

/-!
# Statements of a line

A line of an interface definition is code, possibly followed by a comment, and the code is a
sequence of statements.  Markers inside string literals count for nothing, and statement ends inside
option brackets do not end a statement.

* `Statement.splitComment` separates the code from a trailing comment;
* `Statement.split` cuts code into statements that end in `;` or in an opening brace, each closing
  brace being a statement of its own.
-/

namespace ApiPages
namespace Statement

def isQuote (c : Char) : Bool :=
  c == '"' || c == '\''

/-! ## Comments -/

/-- Scans for the comment marker.  `quote` is the quote that closes the literal being read, `before`
the characters passed, in reverse. -/
def findComment (quote : Option Char) (before : List Char) :
    List Char → Option (List Char × List Char)
  | [] => none
  | [_] => none
  | c :: d :: rest =>
      match quote with
      | some q =>
          -- an escaped quote does not close the literal
          if c == '\\' then findComment quote (d :: c :: before) rest
          else findComment (if c == q then none else quote) (c :: before) (d :: rest)
      | none =>
          if c == '/' && d == '/' then some (before.reverse, rest)
          else findComment (if isQuote c then some c else none) (c :: before) (d :: rest)

/-- The code of a line and its trailing comment; a line without one is all code. -/
def splitComment (line : List Char) : List Char × List Char :=
  match findComment none [] line with
  | some (code, comment) => (Text.trim code, Text.trim comment)
  | none => (line, [])

/-! ## Statements -/

/-- Adds a statement to those found so far, unless it is blank. -/
def emit (found : List (List Char)) (reversed : List Char) : List (List Char) :=
  let s := Text.trim reversed.reverse
  if s.isEmpty then found else s :: found

/-- Cuts code into statements, collected in reverse in `found`.  `current` holds the characters of
the statement being read in reverse, `brackets` the number of open option brackets. -/
def scan (quote : Option Char) (brackets : Nat) (current : List Char) (found : List (List Char)) :
    List Char → List (List Char)
  | [] => emit found current
  | c :: rest =>
      match quote with
      | some q =>
          if c == '\\' then
            match rest with
            | [] => emit found (c :: current)
            | d :: rest => scan quote brackets (d :: c :: current) found rest
          else scan (if c == q then none else quote) brackets (c :: current) found rest
      | none =>
          if isQuote c then scan (some c) brackets (c :: current) found rest
          else if c == '[' then scan none (brackets + 1) (c :: current) found rest
          else if c == ']' then scan none (brackets - 1) (c :: current) found rest
          else if (c == ';' || c == '\x7b') && brackets == 0 then
            scan none 0 [] (emit found (c :: current)) rest
          else if c == '\x7d' && brackets == 0 then
            scan none 0 [] (emit (emit found current) [c]) rest
          else scan none brackets (c :: current) found rest

/-- The statements of a piece of code, in order. -/
def split (code : List Char) : List (List Char) :=
  (scan none 0 [] [] code).reverse

end Statement
end ApiPages

import ApiPages.Text.Blank
import ApiPages.Text.Search

/-!
# Lines of a document

Classes of lines, decided on a single line.

* `Fence.opening?` recognises the line that opens a fenced block, `Fence.closes` the one that closes
  it;
* `atx?` and `underline?` recognise the two forms of headings;
* `isParagraph` tells the lines that an underline can turn into a heading.
-/

namespace ApiPages
namespace Markdown

/-- Splits off the indentation of a line, unless it is deeper than three characters. -/
def indent? (line : List Char) : Option (List Char × List Char) :=
  let indent := line.takeWhile Text.isSpace
  if indent.length ≤ 3 then some (indent, line.dropWhile Text.isSpace) else none

/-! ## Fences -/

/-- The mark of a fence: a character and how often it stands there. -/
structure Fence where
  mark : Char
  size : Nat
  deriving DecidableEq, Repr

namespace Fence

/-- An opening line: its fence, the first word after it and the rest. -/
structure Opening where
  fence : Fence
  word : List Char
  rest : List Char
  deriving DecidableEq, Repr

def opening? (line : List Char) : Option Opening := do
  let (_, body) ← indent? line
  let mark ← body.head?
  let size := (body.takeWhile (· == mark)).length
  if (mark == '\x60' || mark == '~') && 3 ≤ size then
    let after := (body.drop size).dropWhile Text.isSpace
    let isWordChar (c : Char) : Bool := !Text.isSpace c && c != '\x60'
    some {
      fence := { mark, size }
      word := after.takeWhile isWordChar
      rest := after.dropWhile isWordChar }
  else none

/-- Whether a line closes a fence: nothing but the mark, at least as often, between blanks. -/
def closes (f : Fence) (line : List Char) : Bool :=
  let body := Text.trim line
  f.size ≤ body.length && body.all (· == f.mark)

end Fence

/-! ## Headings -/

/-- A line that is a heading: indentation, number of signs, and what follows them. -/
def atx? (line : List Char) : Option (List Char × Nat × List Char) := do
  let (indent, body) ← indent? line
  let level := (body.takeWhile (· == '#')).length
  let rest := body.drop level
  let ends := match rest with
    | [] => true
    | c :: _ => Text.isSpace c
  if 1 ≤ level && level ≤ 6 && ends then some (indent, level, rest) else none

/-- The level of the heading that a line underlines. -/
def underline? (line : List Char) : Option Nat := do
  let (_, body) ← indent? line
  let mark ← body.head?
  if mark == '=' || mark == '-' then
    if (body.dropWhile (· == mark)).all Text.isSpace then some (if mark == '=' then 1 else 2)
    else none
  else none

/-! ## Paragraphs -/

/-- A line of three or more equal marks that divides a document. -/
def isRule (line : List Char) : Bool :=
  match indent? line with
  | none => false
  | some (_, body) =>
      match body.head? with
      | none => false
      | some mark =>
          (mark == '-' || mark == '*' || mark == '_') &&
            body.all (fun c => c == mark || Text.isSpace c) && 3 ≤ body.count mark

/-- A line that begins an item of a list. -/
def isListItem (line : List Char) : Bool :=
  match indent? line with
  | none => false
  | some (_, body) =>
      let ends (cs : List Char) : Bool := match cs with
        | [] => true
        | c :: _ => Text.isSpace c
      let digits := body.takeWhile Char.isDigit
      match body.drop digits.length with
      | c :: rest =>
          if digits.isEmpty then (c == '-' || c == '*' || c == '+') && ends rest
          else digits.length ≤ 9 && (c == '.' || c == ')') && ends rest
      | [] => false

/-- A line that an underline can turn into a heading. -/
def isParagraph (line : List Char) : Bool :=
  !(Text.trim line).isEmpty && !isRule line && !isListItem line

end Markdown
end ApiPages

import ApiPages.Yaml.Writer

/-!
# Text being read

A `Source` is the text left to read together with the place that has been reached in it.

* `Source.skip` passes a character, `Source.readLine` a line break;
* `Source.comment` passes the rest of a line, `Source.comments` a block of comment lines;
* `Gap` is what lies between two words of a scalar, and `Gap.text` what stands for it.
-/

namespace ApiPages
namespace Yaml

structure Source where
  rest : List Char
  /-- The number of characters of the whole text. -/
  size : Nat
  /-- The number of characters passed. -/
  index : Nat := 0
  line : Nat := 0
  column : Nat := 0
  /-- Nothing but blanks has come since a line break. -/
  isFresh : Bool := false
  deriving Repr

/-- Whether a text ends here or begins with a line break. -/
def atLineEnd (cs : List Char) : Bool := cs.head?.all isBreak

/-- Whether a text ends here or begins with a blank or a line break. -/
def atEdge (cs : List Char) : Bool := cs.head?.all fun c => isGapChar c || isBreak c

/-- Letters, digits and the two signs that names may hold. -/
def isNameChar (c : Char) : Bool := c.isAlphanum || c == '_' || c == '-'

namespace Source

/-- Passes one character that is no line break. -/
def skip (s : Source) : Source :=
  match s.rest with
  | [] => s
  | c :: rest =>
      { s with
        rest, index := s.index + 1, column := s.column + 1
        isFresh := s.isFresh && isGapChar c }

def skipN (s : Source) : Nat → Source
  | 0 => s
  | n + 1 => s.skip.skipN n

/-- Passes one line break and tells what it reads as: the two characters that come from separators
of lines and paragraphs are kept. -/
def readLine (s : Source) : List Char × Source :=
  let next (read : List Char) (size : Nat) (rest : List Char) : List Char × Source :=
    (read,
      { s with rest, index := s.index + size, line := s.line + 1, column := 0, isFresh := true })
  match s.rest with
  -- two characters, but one line break
  | '\r' :: '\n' :: rest => next ['\n'] 2 rest
  | c :: rest =>
      if c == '\n' || c == '\r' || c == '\u0085' then next ['\n'] 1 rest
      else if isBreak c then next [c] 1 rest
      else ([], s)
  | [] => ([], s)

/-- A bound on the number of steps that can be made from here. -/
def steps (s : Source) : Nat := s.size + 8

def skipLine (s : Source) : Source := s.readLine.2

/-- Passes characters of a kind that holds no line break. -/
def skipWhile (s : Source) (isPassed : Char → Bool) : Source :=
  s.skipN (s.rest.takeWhile isPassed).length

def skipBlanks (s : Source) : Source := s.skipWhile isGapChar

/-- Passes what is left of a line. -/
def comment (s : Source) : Source := s.skipWhile fun c => !isBreak c

/-- Passes blanks and line breaks. -/
def skipGap (fuel : Nat) (s : Source) : Source :=
  match fuel with
  | 0 => s
  | fuel + 1 =>
      match s.rest with
      | [] => s
      | c :: _ =>
          if isGapChar c then skipGap fuel s.skip
          else if isBreak c then skipGap fuel s.skipLine
          else s

/-- The farthest that a following comment line is looked for. -/
def commentReach : Nat := 512

/-- Passes a comment with the comment lines that follow it, up to the end of the last one. -/
def comments (fuel : Nat) (s : Source) : Source :=
  match fuel with
  | 0 => s
  | fuel + 1 =>
      let last := s.comment
      -- only a comment line takes what lies before it along
      let next := last.skipGap commentReach
      if next.rest.head? == some '#' then comments fuel next else last

/-- Whether a line that begins or ends a document is reached. -/
def isDocumentMark (s : Source) : Bool :=
  s.column == 0 &&
    match s.rest with
    | '-' :: '-' :: '-' :: rest | '.' :: '.' :: '.' :: rest => atEdge rest
    | _ => false

end Source

/-! ## Gaps -/

/-- What lies between two words of a scalar. -/
structure Gap where
  blanks : List Char := []
  isBroken : Bool := false
  /-- The first line break; an escaped one leaves nothing. -/
  first : List Char := []
  further : List Char := []
  deriving Repr

namespace Gap

/-- The text that stands for a gap: a single line break is a space. -/
def text (g : Gap) : List Char :=
  if g.isBroken then
    if g.first.head? == some '\n' then (if g.further.isEmpty then [' '] else g.further)
    else g.first ++ g.further
  else g.blanks

/-- Reads on in a gap.  A tab may not stand before column `least`. -/
def read? (fuel : Nat) (least : Nat) (g : Gap) (s : Source) : Option (Gap × Source) :=
  match fuel with
  | 0 => some (g, s)
  | fuel + 1 =>
      match s.rest with
      | [] => some (g, s)
      | c :: _ =>
          if isGapChar c then
            if g.isBroken then
              if c == '\t' && s.column < least then none else read? fuel least g s.skip
            else read? fuel least { g with blanks := g.blanks ++ [c] } s.skip
          else if isBreak c then
            let (read, next) := s.readLine
            if g.isBroken then read? fuel least { g with further := g.further ++ read } next
            else read? fuel least { g with isBroken := true, first := read, blanks := [] } next
          else some (g, s)

end Gap
end Yaml
end ApiPages

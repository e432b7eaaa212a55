import ApiPages.Text.Quoted
import ApiPages.Text.Search
import ApiPages.Yaml.Scalar

/-!
# Writing scalars

A text is written in the plainest style that reads back: without quotes, in single quotes, as an
indented block when it has several lines, and in double quotes otherwise.

* `Yaml.Traits.of` collects what decides the style;
* `Yaml.styleOf` decides it;
* `Yaml.scalar` writes a text as the value of a key at the outermost level.
-/

namespace ApiPages
namespace Yaml

/-! ## Characters -/

def isBreak (c : Char) : Bool :=
  c == '\n' || c == '\r' || c == '\u0085' || c == '\u2028' || c == '\u2029'

/-- Characters that may stand in a text without being escaped. -/
def isPlainChar (c : Char) : Bool :=
  let n := c.toNat
  n == 0x0A || (0x20 ≤ n && n ≤ 0x7E) || (0xA0 ≤ n && n ≤ 0xFFFD && n != 0xFEFF)

def isGapChar (c : Char) : Bool :=
  c == ' ' || c == '\t'

/-! ## Traits of a text -/

/-- Characters that cannot begin an unquoted text. -/
def openers : List Char :=
  ['#', ',', '[', ']', '\x7b', '\x7d', '&', '*', '!', '|', '>', '\'', '"', '%', '@', '\x60']

structure Traits where
  /-- Holds characters that have a meaning of their own where they stand. -/
  hasIndicator : Bool
  hasBreak : Bool
  hasTab : Bool
  /-- Holds a character that must be escaped. -/
  hasSpecial : Bool
  edgeBlank : Bool
  trailingSpace : Bool
  /-- A space right before a line break. -/
  spaceBreak : Bool
  /-- A space right after a line break. -/
  breakSpace : Bool
  deriving DecidableEq, Repr

/-- Whether a colon that ends the text or a word, or a number sign that begins a word, occurs after
the first character. -/
def hasInnerIndicator : List Char → Bool
  | [] => false
  | [_] => false
  | c :: d :: rest =>
      (d == ':' && (match rest with
        | [] => true
        | e :: _ => isGapChar e)) ||
      (d == '#' && (isGapChar c || isBreak c)) ||
      hasInnerIndicator (d :: rest)

def hasLeadingIndicator (cs : List Char) : Bool :=
  match cs with
  | [] => false
  | c :: rest =>
      openers.contains c ||
      ((c == '-' || c == '?' || c == ':') && (match rest with
        | [] => true
        | d :: _ => isGapChar d)) ||
      ['-', '-', '-'].isPrefixOf cs || ['.', '.', '.'].isPrefixOf cs

/-- Whether two neighbours satisfy two properties, in order. -/
def hasPair (p q : Char → Bool) (cs : List Char) : Bool :=
  (cs.zip cs.tail).any fun (c, d) => p c && q d

def Traits.of (cs : List Char) : Traits :=
  let isEdge (c : Char) : Bool := c == ' ' || isBreak c
  { hasIndicator := hasLeadingIndicator cs || hasInnerIndicator cs
    hasBreak := cs.any isBreak
    hasTab := cs.contains '\t'
    hasSpecial := cs.any fun c => c != '\t' && !isPlainChar c
    edgeBlank := cs.head?.any isEdge || cs.getLast?.any isEdge
    trailingSpace := cs.getLast? == some ' '
    spaceBreak := hasPair (· == ' ') isBreak cs
    breakSpace := hasPair isBreak (· == ' ') cs }

/-! ## Styles -/

inductive Style where
  | plain
  | single
  | double
  | literal
  deriving DecidableEq, Repr

def styleOf (s : String) : Style :=
  let cs := s.toList
  let t := Traits.of cs
  if cs.contains '\n' then
    if t.trailingSpace || t.spaceBreak || t.hasSpecial then .double else .literal
  else if isReserved s then .double
  else if t.spaceBreak || t.breakSpace || t.hasTab || t.hasSpecial then .double
  else if t.hasIndicator || t.hasBreak || t.edgeBlank then .single
  else .plain

/-! ## Indentation -/

/-- The lines of a text: after a break, the next character that is none is indented. -/
def indented (fresh : Bool) : List Char → List Char
  | [] => []
  | c :: rest =>
      if isBreak c then c :: indented true rest
      else if fresh then ' ' :: ' ' :: c :: indented false rest
      else c :: indented false rest

/-! ## Quotes -/

/-- A number in upper case hexadecimal digits, padded to a width. -/
def hexUpper (width n : Nat) : List Char :=
  (Text.hexDigits width n).map Char.toUpper

/-- A character inside double quotes. -/
def escape (c : Char) : List Char :=
  match c with
  | '"' => ['\\', '"']
  | '\\' => ['\\', '\\']
  | '\x00' => ['\\', '0']
  | '\x07' => ['\\', 'a']
  | '\x08' => ['\\', 'b']
  | '\t' => ['\\', 't']
  | '\n' => ['\\', 'n']
  | '\x0b' => ['\\', 'v']
  | '\x0c' => ['\\', 'f']
  | '\r' => ['\\', 'r']
  | '\x1b' => ['\\', 'e']
  | '\u0085' => ['\\', 'N']
  | '\u2028' => ['\\', 'L']
  | '\u2029' => ['\\', 'P']
  | _ =>
      let n := c.toNat
      if isPlainChar c then [c]
      else if n ≤ 0xFF then '\\' :: 'x' :: hexUpper 2 n
      else if n ≤ 0xFFFF then '\\' :: 'u' :: hexUpper 4 n
      else '\\' :: 'U' :: hexUpper 8 n

def doubleQuoted (cs : List Char) : List Char :=
  '"' :: cs.flatMap escape ++ ['"']

def singleQuoted (cs : List Char) : List Char :=
  '\'' :: (indented false cs).flatMap (fun c => if c == '\'' then ['\'', '\''] else [c]) ++ ['\'']

/-! ## Blocks -/

/-- The sign that tells how the breaks at the end of a block are kept. -/
def chomping (cs : List Char) : List Char :=
  match cs.reverse with
  | c :: d :: _ => if !isBreak c then ['-'] else if isBreak d then ['+'] else []
  | [c] => if isBreak c then ['+'] else ['-']
  | [] => ['-']

/-- A block of lines.  A break at the beginning ends the header line, and a block that does not end
in a break is followed by one. -/
def literal (cs : List Char) : List Char :=
  let hint := match cs with
    | c :: _ => if c == ' ' || isBreak c then ['2'] else []
    | [] => []
  let start := match cs with
    | c :: _ => if isBreak c then [] else ['\n']
    | [] => []
  let finish := if cs.getLast?.any isBreak then [] else ['\n']
  '|' :: hint ++ chomping cs ++ start ++ indented true cs ++ finish

/-- A text as the value of a key, with the line break that ends it. -/
def scalar (s : String) : String :=
  let cs := s.toList
  String.ofList <| match styleOf s with
    | .plain => cs ++ ['\n']
    | .single => singleQuoted cs ++ ['\n']
    | .double => doubleQuoted cs ++ ['\n']
    | .literal => literal cs

end Yaml
end ApiPages

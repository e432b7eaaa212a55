import ApiPages.Text.Numeral
import ApiPages.Text.Utf8
import ApiPages.Yaml.Source

/-!
# Tokens

The smallest parts of a document, and the readers of those that hold text.

* `Token` is a part of a document;
* `Lex.plain?`, `Lex.quoted?` and `Lex.block?` read the three kinds of scalars;
* `Lex.name?`, `Lex.tag?` and `Lex.directive?` read what stands before nodes and documents.
-/

namespace ApiPages
namespace Yaml

inductive Token where
  | streamEnd
  | documentStart
  | documentEnd
  | version (major minor : Nat)
  | tagDirective (handle start : String)
  | blockSequenceStart
  | blockMappingStart
  | blockEnd
  | flowSequenceStart
  | flowSequenceEnd
  | flowMappingStart
  | flowMappingEnd
  | blockEntry
  | flowEntry
  | key
  | value
  | alias (name : String)
  | anchor (name : String)
  | tag (handle suffix : String)
  | scalar (isPlain : Bool) (text : String)
  deriving DecidableEq, Repr

namespace Lex

/-! ## Unquoted scalars -/

/-- Characters that end an unquoted scalar inside brackets. -/
def flowMarks : List Char := [',', '?', '[', ']', '\x7b', '\x7d']

/-- Whether a row of characters of an unquoted scalar ends here. -/
def endsWord (inFlow : Bool) (cs : List Char) : Bool :=
  match cs with
  | [] => true
  | c :: rest =>
      isGapChar c || isBreak c || (c == ':' && atEdge rest) || (inFlow && flowMarks.contains c)

/-- The characters of a word. -/
def word (inFlow : Bool) (acc : List Char) : List Char → List Char
  | [] => acc.reverse
  | c :: rest => if endsWord inFlow (c :: rest) then acc.reverse else word inFlow (c :: acc) rest

/-- Reads an unquoted scalar, which goes on on later lines from column `least` on; `acc` is what has
been read of it, in reverse.  Tells also whether a line break follows it. -/
def plain? (fuel : Nat) (inFlow : Bool) (least : Nat) (acc : List Char) (gap : Gap) (s : Source) :
    Option (List Char × Bool × Source) :=
  match fuel with
  | 0 => none
  | fuel + 1 =>
      -- within a word a number sign is an ordinary character, so only the start of one is looked at
      if s.isDocumentMark || s.rest.head? == some '#' then some (acc.reverse, gap.isBroken, s)
      else
        let w := word inFlow [] s.rest
        let acc := if w.isEmpty then acc else w.reverse ++ (gap.text.reverse ++ acc)
        let gap := if w.isEmpty then gap else {}
        let s := s.skipN w.length
        match s.rest with
        | [] => some (acc.reverse, gap.isBroken, s)
        | c :: _ =>
            if !isGapChar c && !isBreak c then some (acc.reverse, gap.isBroken, s)
            else do
              let (gap, s) ← gap.read? s.steps least s
              -- a line that is indented less belongs to what the scalar stands in
              if !inFlow && s.column < least then some (acc.reverse, gap.isBroken, s)
              else plain? fuel inFlow least acc gap s

/-! ## Quoted scalars -/

/-- The character after a backslash, for the escapes of one letter. -/
def unescape? (c : Char) : Option Char :=
  match c with
  | '0' => some '\x00'
  | 'a' => some '\x07'
  | 'b' => some '\x08'
  | 't' | '\t' => some '\t'
  | 'n' => some '\n'
  | 'v' => some '\x0b'
  | 'f' => some '\x0c'
  | 'r' => some '\r'
  | 'e' => some '\x1b'
  | ' ' => some ' '
  | '"' => some '"'
  | '\'' => some '\''
  | '/' => some '/'
  | '\\' => some '\\'
  | 'N' => some '\u0085'
  | '_' => some '\u00a0'
  | 'L' => some '\u2028'
  | 'P' => some '\u2029'
  | _ => none

/-- The number of hexadecimal digits that an escape takes. -/
def escapeWidth? (c : Char) : Option Nat :=
  match c with
  | 'x' => some 2
  | 'u' => some 4
  | 'U' => some 8
  | _ => none

/-- The character of a given number, if there is one. -/
def charOf? (n : Nat) : Option Char :=
  if h : n.isValidChar then some (Char.ofNatAux n h) else none

/-- The character of an escape after its backslash, and the number of characters it takes. -/
def escape? (cs : List Char) : Option (Char × Nat) :=
  match cs with
  | [] => none
  | c :: rest =>
      match unescape? c with
      | some d => some (d, 1)
      | none => do
          let width ← escapeWidth? c
          let digits := rest.take width
          if digits.length < width then none
          else
            let d ← charOf? (← Numeral.inBase? 16 digits)
            some (d, width + 1)

/-- Reads a quoted scalar after its opening quote. -/
def quoted? (fuel : Nat) (isSingle : Bool) (acc : List Char) (s : Source) :
    Option (List Char × Source) :=
  match fuel with
  | 0 => none
  | fuel + 1 =>
      if s.isDocumentMark then none
      else
        let afterGap (gap : Gap) (s : Source) : Option (List Char × Source) := do
          let (gap, s) ← gap.read? s.steps 0 s
          quoted? fuel isSingle (gap.text.reverse ++ acc) s
        match s.rest with
        | [] => none
        | c :: rest =>
            if isGapChar c || isBreak c then afterGap {} s
            else if isSingle && c == '\'' then
              if rest.head? == some '\'' then quoted? fuel isSingle ('\'' :: acc) s.skip.skip
              else some (acc.reverse, s.skip)
            else if !isSingle && c == '"' then some (acc.reverse, s.skip)
            else if !isSingle && c == '\\' then
              -- a line break that is escaped joins the lines without a space between them
              if rest.head?.any isBreak then afterGap { isBroken := true } s.skip.skipLine
              else do
                let (d, size) ← escape? rest
                quoted? fuel isSingle (d :: acc) (s.skipN (size + 1))
            else quoted? fuel isSingle (c :: acc) s.skip

/-! ## Blocks -/

/-- How the line breaks at the end of a block are kept. -/
inductive Chomp where
  | clip
  | strip
  | keep
  deriving DecidableEq, Repr

def chomp? (c : Char) : Option Chomp :=
  if c == '+' then some .keep else if c == '-' then some .strip else none

/-- The signs after the mark of a block: an indentation, a way of chomping, or both in either order.
The indentation may not be zero. -/
def blockSigns? (s : Source) : Option (Option Nat × Chomp × Source) :=
  let digit? (c : Char) : Option Nat :=
    if c.isDigit then some (c.toNat - '0'.toNat) else none
  match s.rest with
  | [] => some (none, .clip, s)
  | c :: rest =>
      match chomp? c, digit? c with
      | some k, _ =>
          match rest.head?.bind digit? with
          | some 0 => none
          | some n => some (some n, k, s.skip.skip)
          | none => some (none, k, s.skip)
      | none, some 0 => none
      | none, some n =>
          match rest.head?.bind chomp? with
          | some k => some (some n, k, s.skip.skip)
          | none => some (some n, .clip, s.skip)
      | none, none => some (none, .clip, s)

/-- Passes the indentation and the empty lines before a line of a block.  `indent` is nothing as
long as the indentation is not known.  Returns the line breaks, the deepest column reached, and the
text left. -/
def blockBreaks? (fuel : Nat) (indent : Option Nat) (breaks : List Char) (deepest : Nat)
    (s : Source) :
    Option (List Char × Nat × Source) :=
  match fuel with
  | 0 => some (breaks, deepest, s)
  | fuel + 1 =>
      let spaces := (s.rest.takeWhile (· == ' ')).length
      let s := s.skipN (match indent with
        | some n => min spaces (n - s.column)
        | none => spaces)
      let deepest := max deepest s.column
      let isShort := indent.all (s.column < ·)
      match s.rest with
      | [] => some (breaks, deepest, s)
      | c :: _ =>
          if isShort && c == '\t' then none
          else if isBreak c then
            let (read, next) := s.readLine
            blockBreaks? fuel indent (breaks ++ read) deepest next
          else some (breaks, deepest, s)

/-- The lines of a block whose indentation is known.  `acc` is what has been read, in reverse,
`first` and `further` are the line breaks since the last line, `wasBlank` tells that it began with a
blank. -/
def blockLines? (fuel : Nat) (isFolded : Bool) (indent : Nat) (wasBlank : Bool)
    (acc first further : List Char) (s : Source) :
    Option (List Char × List Char × List Char × Source) :=
  match fuel with
  | 0 => none
  | fuel + 1 =>
      if s.column != indent || s.rest.isEmpty then some (acc.reverse, first, further, s)
      else do
        let isBlank := s.rest.head?.any isGapChar
        -- lines that begin with a blank are never folded, neither with the line before nor with the
        -- next
        let isJoined := isFolded && !wasBlank && !isBlank && first.head? == some '\n'
        let between := if isJoined then (if further.isEmpty then [' '] else []) else first
        let line := s.rest.takeWhile fun c => !isBreak c
        let (first, s) := (s.skipN line.length).readLine
        let (next, _, s) ← blockBreaks? s.steps (some indent) [] 0 s
        let acc := line.reverse ++ (further.reverse ++ (between.reverse ++ acc))
        blockLines? fuel isFolded indent isBlank acc first next s

/-- Reads a block after its mark.  `parent` is the indentation of what it belongs to. -/
def block? (isFolded : Bool) (parent : Int) (s : Source) : Option (List Char × Source) := do
  let (hint, chomp, s) ← blockSigns? s
  let s := s.skipBlanks
  let s := if s.rest.head? == some '#' then s.comment else s
  if !atLineEnd s.rest then none
  else
    let s := s.skipLine
    let size := s.steps
    let indent := hint.map fun n => n + parent.toNat
    let (breaks, deepest, s) ← blockBreaks? size indent [] 0 s
    -- without a number the empty lines and the first other one say how deep the block is
    let indent := indent.getD (max (max deepest (parent + 1).toNat) 1)
    let (text, first, further, s) ← blockLines? size isFolded indent false [] [] breaks s
    let ending := match chomp with
      | .strip => []
      | .clip => first
      | .keep => first ++ further
    some (text ++ ending, s)

/-! ## Names, tags and directives -/

/-- Reads the name of an anchor after its sign. -/
def name? (s : Source) : Option (String × Source) :=
  let name := s.rest.takeWhile isNameChar
  let rest := s.rest.drop name.length
  let isEnded := atEdge rest ||
    rest.head?.any fun c => ['?', ':', ',', ']', '\x7d', '%', '@', '\x60'].contains c
  if name.isEmpty || !isEnded then none else some (String.ofList name, s.skipN name.length)

/-- Characters of a tag besides those of names. -/
def isTagChar (c : Char) : Bool :=
  isNameChar c || ";/?:@&=+$,.!~*'()[]".toList.contains c

/-- The byte of an escape after its percent sign. -/
def escapedByte? (cs : List Char) : Option UInt8 :=
  match cs with
  | a :: b :: _ => (Numeral.inBase? 16 [a, b]).map UInt8.ofNat
  | _ => none

/-- The bytes of the escapes at the beginning of a text that make one character: the first tells how
many there are. -/
def escapedChar? (s : Source) : Option (Char × Source) := do
  let byteAt (k : Nat) : Option UInt8 :=
    match s.rest.drop (3 * k) with
    | '%' :: rest => escapedByte? rest
    | _ => none
  let b ← byteAt 0
  let width := if b < 0x80 then 1 else if b &&& 0xE0 == 0xC0 then 2
    else if b &&& 0xF0 == 0xE0 then 3 else if b &&& 0xF8 == 0xF0 then 4 else 0
  if width == 0 then none
  else
    let bytes ← (List.range width).mapM byteAt
    if (bytes.drop 1).all (fun x => x &&& 0xC0 == 0x80) then
      some (((Utf8.first? bytes).map (·.1)).getD Utf8.replacement, s.skipN (3 * width))
    else none

/-- Reads the characters of a tag. -/
def tagText? (fuel : Nat) (acc : List Char) (s : Source) : Option (List Char × Source) :=
  match fuel with
  | 0 => none
  | fuel + 1 =>
      match s.rest with
      | [] => some (acc.reverse, s)
      | c :: _ =>
          if c == '%' then do
            let (d, s) ← escapedChar? s
            tagText? fuel (d :: acc) s
          else if isTagChar c then tagText? fuel (c :: acc) s.skip
          else some (acc.reverse, s)

/-- Reads the characters of a tag, of which there must be some. -/
def someTagText? (s : Source) : Option (List Char × Source) :=
  (tagText? s.steps [] s).filter fun (text, _) => !text.isEmpty

/-- Reads the beginning of a tag: an exclamation mark, a name, and possibly a second mark. -/
def handle? (s : Source) : Option (List Char × Source) :=
  match s.rest with
  | '!' :: rest =>
      let name := rest.takeWhile isNameChar
      let s := s.skipN (name.length + 1)
      if s.rest.head? == some '!' then some ('!' :: name ++ ['!'], s.skip)
        else some ('!' :: name, s)
  | _ => none

/-- Reads a tag: a handle and a suffix.  A tag in full has no handle, and neither has the tag that
is only a mark. -/
def tag? (s : Source) : Option (Token × Source) := do
  let (handle, suffix, s) ←
    match s.rest with
    | '!' :: '<' :: _ =>
        let (text, s) ← someTagText? s.skip.skip
        if s.rest.head? == some '>' then some ([], text, s.skip) else none
    | _ =>
        let (handle, s) ← handle? s
        if 1 < handle.length && handle.getLast? == some '!' then
          let (text, s) ← someTagText? s
          some (handle, text, s)
        else
          let (text, s) ← tagText? s.steps (handle.drop 1).reverse s
          if text.isEmpty then some ([], ['!'], s) else some (['!'], text, s)
  if atEdge s.rest then some (.tag (String.ofList handle) (String.ofList suffix), s) else none

/-- A number of one or two digits. -/
def versionNumber? (s : Source) : Option (Nat × Source) :=
  let digits := s.rest.takeWhile Char.isDigit
  if digits.isEmpty || 2 < digits.length then none
  else (Numeral.inBase? 10 digits).map fun n => (n, s.skipN digits.length)

/-- Reads a directive line after its percent sign. -/
def directive? (s : Source) : Option (Token × Source) := do
  let name := s.rest.takeWhile isNameChar
  let s := s.skipN name.length
  if !atEdge s.rest then none
  else
    let s := s.skipBlanks
    let (token, s) ←
      if name == "YAML".toList then do
        let (major, s) ← versionNumber? s
        let (minor, s) ← if s.rest.head? == some '.' then versionNumber? s.skip else none
        some (Token.version major minor, s)
      else if name == "TAG".toList then do
        let (handle, s) ← handle? s
        let isHandle := handle.length == 1 || handle.getLast? == some '!'
        if !isHandle || !s.rest.head?.any isGapChar then none
        else
          let (start, s) ← someTagText? s.skipBlanks
          if atEdge s.rest then
            some (Token.tagDirective (String.ofList handle) (String.ofList start), s)
          else none
      else none
    let s := s.skipBlanks
    let s := if s.rest.head? == some '#' then s.comment else s
    if atLineEnd s.rest then some (token, s.skipLine) else none

end Lex
end Yaml
end ApiPages

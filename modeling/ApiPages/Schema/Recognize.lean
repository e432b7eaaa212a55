import ApiPages.Schema.Basic
import ApiPages.Text.Blank

/-!
# Recognising statements

One recogniser for each kind of statement the documentation view keeps.  A recogniser looks at a
single statement, reads it from the left and either returns what it declares or nothing.

The small readers at the beginning take text from the left and return the rest; the recognisers
`dialect?`, `package?`, `import?`, `header?`, `rpc?`, `field?` and `enumValue?` are composed of
them.
-/

namespace ApiPages
namespace Recognize

/-! ## Small readers -/

def skipSpaces (cs : List Char) : List Char :=
  cs.dropWhile Text.isSpace

/-- At least one space. -/
def spaces? (cs : List Char) : Option (List Char) :=
  match cs with
  | c :: rest => if Text.isSpace c then some (skipSpaces rest) else none
  | [] => none

/-- A non-empty run of characters of a class. -/
def run? (p : Char → Bool) (cs : List Char) : Option (List Char × List Char) :=
  let run := cs.takeWhile p
  if run.isEmpty then none else some (run, cs.dropWhile p)

def word? (cs : List Char) : Option (List Char × List Char) :=
  run? Text.isWord cs

def isNamePart (c : Char) : Bool :=
  Text.isWord c || c == '.'

def keyword? (word : String) (cs : List Char) : Option (List Char) :=
  word.toList.isPrefixOf? cs

/-- A non-empty text between double quotes. -/
def quoted? (cs : List Char) : Option (List Char × List Char) := do
  let cs ← keyword? "\"" cs
  let (text, cs) ← run? (· != '"') cs
  let cs ← keyword? "\"" cs
  return (text, cs)

/-! ## Declarations -/

/-- `syntax = "…"` -/
def dialect? (s : List Char) : Option String := do
  let s ← keyword? "syntax" s
  let s ← keyword? "=" (skipSpaces s)
  let (text, _) ← quoted? (skipSpaces s)
  return String.ofList text

/-- `package a.b` -/
def package? (s : List Char) : Option String := do
  let s ← keyword? "package" s
  let s ← spaces? s
  let (name, _) ← run? isNamePart s
  return String.ofList name

/-- `import "…"`, possibly public or weak -/
def import? (s : List Char) : Option String := do
  let s ← keyword? "import" s
  let s ← spaces? s
  let qualified (word : String) := (keyword? word s).bind spaces?
  let s := ((qualified "public").or (qualified "weak")).getD s
  let (text, _) ← quoted? s
  return String.ofList text

/-! ## Block headers -/

/-- The blocks that become items. -/
inductive Block where
  | service
  | message
  | enum
  deriving DecidableEq, Repr

def Block.keyword : Block → String
  | service => "service"
  | message => "message"
  | enum => "enum"

def headerOf? (block : Block) (s : List Char) : Option (Block × String) := do
  let s ← keyword? block.keyword s
  let s ← spaces? s
  let (name, s) ← word? s
  if skipSpaces s == ['\x7b'] then some (block, String.ofList name) else none

/-- The header of a block, with the opening brace at its end. -/
def header? (s : List Char) : Option (Block × String) :=
  (headerOf? .service s).or ((headerOf? .message s).or (headerOf? .enum s))

/-! ## Calls -/

/-- The type between the parentheses of a call, and whether it is streamed.  A type has at least one
character; when nothing but spaces is left for it, it is the last of them. -/
def payload? (content : List Char) : Option (Bool × List Char) :=
  let inner := skipSpaces content
  let plain : Option (Bool × List Char) :=
    match inner with
    | [] => content.getLast?.map fun c => (false, [c])
    | _ => some (false, Text.trimEnd Text.isSpace inner)
  match keyword? "stream" inner with
  | none => plain
  | some gap =>
      match spaces? gap with
      | none => plain
      -- nothing follows the keyword: it is the type, unless a second space can be that
      | some [] => if gap.length < 2 then plain else gap.getLast?.map fun c => (true, [c])
      | some type => some (true, Text.trimEnd Text.isSpace type)

/-- A parenthesised payload. -/
def parens? (cs : List Char) : Option ((Bool × List Char) × List Char) := do
  let cs ← keyword? "(" cs
  let payload ← payload? (cs.takeWhile (· != ')'))
  let rest ← keyword? ")" (cs.dropWhile (· != ')'))
  return (payload, rest)

/-- `rpc Name (Request) returns (Response)` -/
def rpc? (s : List Char) : Option Rpc := do
  let s ← keyword? "rpc" s
  let s ← spaces? s
  let (name, s) ← word? s
  let ((clientStreaming, request), s) ← parens? (skipSpaces s)
  let s ← keyword? "returns" (skipSpaces s)
  let ((serverStreaming, response), _) ← parens? (skipSpaces s)
  return {
    name := String.ofList name
    request := String.ofList request
    response := String.ofList response
    clientStreaming, serverStreaming }

/-! ## Fields and values -/

/-- The end of a field or value: an optional option list and the semicolon that ends the
statement. -/
def isEnding (cs : List Char) : Bool :=
  match cs.getLast? with
  | some ';' =>
      match skipSpaces (Text.trimEnd Text.isSpace cs.dropLast) with
      | [] => true
      | '[' :: options => options.getLast? == some ']' && !options.contains '\n'
      | _ => false
  | _ => false

/-- Label words with the space after them, as many as there are. -/
def labels (fuel : Nat) (cs : List Char) : List (String × List Char) :=
  match fuel with
  | 0 => []
  | fuel + 1 =>
      let label? := ["repeated", "optional", "required"].findSome? fun word =>
        ((keyword? word cs).bind spaces?).map fun rest => (word, rest)
      match label? with
      | some (word, rest) => (word, rest) :: labels fuel rest
      | none => []

/-- White space in a map type is not significant, and its comma is followed by one space. -/
def normalizeType (type : List Char) : List Char :=
  -- a type whose name only begins so has no white space to lose
  if "map".toList.isPrefixOf type then
    (type.filter (fun c => !Text.isSpace c)).flatMap fun c => if c == ',' then [',', ' '] else [c]
  else type

def mapType? (cs : List Char) : Option (List Char × List Char) := do
  let rest ← keyword? "map" cs
  let rest ← keyword? "<" (skipSpaces rest)
  let rest ← keyword? ">" (rest.dropWhile (· != '>'))
  return (cs.take (cs.length - rest.length), rest)

/-- The part of a field after its type. -/
def fieldAfter? (type cs : List Char) : Option MessageField := do
  let cs ← spaces? cs
  let (name, cs) ← word? cs
  let cs ← keyword? "=" (skipSpaces cs)
  let (number, cs) ← run? Char.isDigit (skipSpaces cs)
  if isEnding cs then
    some {
      type := String.ofList (normalizeType type)
      name := String.ofList name
      number := String.ofList number }
  else none

/-- A field without its labels. -/
def unlabelled? (cs : List Char) : Option MessageField :=
  ((mapType? cs).bind fun (type, rest) => fieldAfter? type rest).or
    ((run? isNamePart cs).bind fun (type, rest) => fieldAfter? type rest)

/-- Takes the longest row of labels after which a field can be read; a label word left over is read
as a type. -/
def labelled? (s : List Char) (rows : List (String × List Char)) : Option MessageField :=
  let candidates := (List.range (rows.length + 1)).reverse
  candidates.findSome? fun k =>
    let taken := rows.take k
    let rest := match taken.getLast? with
      | some (_, rest) => rest
      | none => s
    (unlabelled? rest).map fun f =>
      { f with
        isRepeated := taken.any (·.1 == "repeated")
        isOptional := taken.any (·.1 == "optional") }

/-- `label Type name = 1 [options];` -/
def field? (s : List Char) : Option MessageField :=
  labelled? s (labels s.length s)

/-- `NAME = -1 [options];` -/
def enumValue? (s : List Char) : Option EnumValue := do
  let (name, s) ← word? s
  let s ← keyword? "=" (skipSpaces s)
  let s := skipSpaces s
  let (sign, s) := match s with
    | '-' :: rest => (['-'], rest)
    | _ => ([], s)
  let (digits, s) ← run? Char.isDigit s
  if isEnding s then
    some { name := String.ofList name, number := String.ofList (sign ++ digits) }
  else none

end Recognize
end ApiPages

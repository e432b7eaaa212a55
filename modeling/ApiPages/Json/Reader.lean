import ApiPages.Json.Basic

/-!
# Reading JSON text

A strict reader: only the four JSON blanks separate tokens, control characters may not stand in
strings, numbers have no leading zeros, and containers nest at most `Json.maxDepth` deep.

* `Json.scanString` and `Json.scanNumber` read one token;
* `Json.readValue` reads one value and returns the rest of the text;
* `Json.parse?` demands that nothing but blanks follows, `Json.parsePrefix?` ignores what follows.

The recursion is bounded by a fuel argument that the entry points set to more than the number of
steps any text of that length can take.
-/

namespace ApiPages
namespace Json

/-- The deepest nesting of containers that is read. -/
def maxDepth : Nat := 10000

def isGap (c : Char) : Bool :=
  c == ' ' || c == '\t' || c == '\n' || c == '\r'

def skipGap (cs : List Char) : List Char :=
  cs.dropWhile isGap

/-! ## Strings -/

def hexValue (c : Char) : Option Nat :=
  if c.isDigit then some (c.toNat - '0'.toNat)
  else if 'a' ≤ c ∧ c ≤ 'f' then some (c.toNat - 'a'.toNat + 10)
  else if 'A' ≤ c ∧ c ≤ 'F' then some (c.toNat - 'A'.toNat + 10)
  else none

def hexQuad (a b c d : Char) : Option Nat := do
  let w ← hexValue a
  let x ← hexValue b
  let y ← hexValue c
  let z ← hexValue d
  return ((w * 16 + x) * 16 + y) * 16 + z

/-- The character that stands for text that is no character. -/
def replacement : Char := '\uFFFD'

/-- The character of a surrogate pair. -/
def pairValue (high low : Nat) : Char :=
  Char.ofNat ((high - 0xD800) * 0x400 + (low - 0xDC00) + 0x10000)

def isHighSurrogate (n : Nat) : Bool := 0xD800 ≤ n && n < 0xDC00

def isLowSurrogate (n : Nat) : Bool := 0xDC00 ≤ n && n < 0xE000

/-- The character after a backslash, for the escapes of one letter. -/
def shortEscape (c : Char) : Option Char :=
  match c with
  | '"' => some '"'
  | '\\' => some '\\'
  | '/' => some '/'
  | 'b' => some '\x08'
  | 'f' => some '\x0c'
  | 'n' => some '\n'
  | 'r' => some '\r'
  | 't' => some '\t'
  | _ => none

/-- Reads the rest of a string after its opening quote: the characters read so far are held in
reverse.  A surrogate without its partner is read as the replacement character. -/
def scanString : List Char → List Char → Option (List Char × List Char)
  | _, [] => none
  | acc, '"' :: rest => some (acc.reverse, rest)
  | acc, '\\' :: 'u' :: a :: b :: c :: d :: '\\' :: 'u' :: e :: f :: g :: h :: rest =>
      match hexQuad a b c d with
      | none => none
      | some n =>
          match hexQuad e f g h with
          | some m =>
              if isHighSurrogate n && isLowSurrogate m then
                scanString (pairValue n m :: acc) rest
              else
                -- the second escape is read again, as it may begin a pair
                let first := if isHighSurrogate n || isLowSurrogate n then replacement
                  else Char.ofNat n
                scanString (first :: acc) ('\\' :: 'u' :: e :: f :: g :: h :: rest)
          | none => none
  | acc, '\\' :: 'u' :: a :: b :: c :: d :: rest =>
      match hexQuad a b c d with
      | none => none
      | some n =>
          let first := if isHighSurrogate n || isLowSurrogate n then replacement else Char.ofNat n
          scanString (first :: acc) rest
  | acc, '\\' :: c :: rest =>
      match shortEscape c with
      | some e => scanString (e :: acc) rest
      | none => none
  -- a backslash comes here only as the last character
  | acc, c :: rest => if c.toNat < 0x20 || c == '\\' then none else scanString (c :: acc) rest
termination_by _ cs => cs.length

/-! ## Numbers -/

/-- A run of digits, which must not be empty, and what follows. -/
def scanDigits (cs : List Char) : Option (List Char × List Char) :=
  let digits := cs.takeWhile Char.isDigit
  if digits.isEmpty then none else some (digits, cs.dropWhile Char.isDigit)

def scanInteger : List Char → Option (List Char × List Char)
  | '0' :: rest => some (['0'], rest)
  | cs => scanDigits cs

def scanFraction : List Char → Option (List Char × List Char)
  | '.' :: rest => (scanDigits rest).map fun (ds, more) => ('.' :: ds, more)
  | cs => some ([], cs)

def scanExponent : List Char → Option (List Char × List Char)
  | e :: rest =>
      if e == 'e' || e == 'E' then
        match rest with
        | s :: more =>
            if s == '+' || s == '-' then (scanDigits more).map fun (ds, tl) => (e :: s :: ds, tl)
            else (scanDigits rest).map fun (ds, tl) => (e :: ds, tl)
        | [] => none
      else some ([], e :: rest)
  | [] => some ([], [])

/-- The longest number literal at the start of the text. -/
def scanNumber (cs : List Char) : Option (List Char × List Char) := do
  let (sign, cs) := match cs with
    | '-' :: rest => (['-'], rest)
    | _ => ([], cs)
  let (whole, cs) ← scanInteger cs
  let (fraction, cs) ← scanFraction cs
  let (exponent, cs) ← scanExponent cs
  return (sign ++ whole ++ fraction ++ exponent, cs)

/-! ## Values -/

/-- The text from `cs` up to its ending `rest`. -/
def between (cs rest : List Char) : String :=
  String.ofList (cs.take (cs.length - rest.length))

mutual

/-- Reads one value that starts at the first character. -/
def readValue (fuel depth : Nat) (cs : List Char) : Option (Json × List Char) :=
  match fuel with
  | 0 => none
  | fuel + 1 =>
      match cs with
      | 'n' :: 'u' :: 'l' :: 'l' :: rest => some (.null, rest)
      | 't' :: 'r' :: 'u' :: 'e' :: rest => some (.bool true, rest)
      | 'f' :: 'a' :: 'l' :: 's' :: 'e' :: rest => some (.bool false, rest)
      | '"' :: rest => do
          let (value, rest) ← scanString [] rest
          return (.string (between cs rest) (String.ofList value), rest)
      | '[' :: rest =>
          match depth with
          | 0 => none
          | depth + 1 => do
              let (items, rest) ←
                match skipGap rest with
                | ']' :: rest => some ([], rest)
                | rest => readItems fuel depth rest
              return (.array (between cs rest) items, rest)
      | '\x7b' :: rest =>
          match depth with
          | 0 => none
          | depth + 1 => do
              let (members, rest) ←
                match skipGap rest with
                | '\x7d' :: rest => some ([], rest)
                | rest => readMembers fuel depth rest
              return (.object (between cs rest) members, rest)
      | _ => (scanNumber cs).map fun (literal, rest) => (.number (String.ofList literal), rest)

/-- Reads the items of an array up to and including its closing bracket. -/
def readItems (fuel depth : Nat) (cs : List Char) : Option (List Json × List Char) :=
  match fuel with
  | 0 => none
  | fuel + 1 => do
      let (item, rest) ← readValue fuel depth (skipGap cs)
      match skipGap rest with
      | ']' :: rest => return ([item], rest)
      | ',' :: rest => do
          let (items, rest) ← readItems fuel depth rest
          return (item :: items, rest)
      | _ => none

/-- Reads the members of an object up to and including its closing brace. -/
def readMembers (fuel depth : Nat) (cs : List Char) : Option (List (String × Json) × List Char) :=
  match fuel with
  | 0 => none
  | fuel + 1 =>
      match skipGap cs with
      | '"' :: rest => do
          let (key, rest) ← scanString [] rest
          match skipGap rest with
          | ':' :: rest => do
              let (value, rest) ← readValue fuel depth (skipGap rest)
              match skipGap rest with
              | '\x7d' :: rest => return ([(String.ofList key, value)], rest)
              | ',' :: rest => do
                  let (members, rest) ← readMembers fuel depth rest
                  return ((String.ofList key, value) :: members, rest)
              | _ => none
          | _ => none
      | _ => none

end

/-! ## Entry points -/

/-- The first value of a text and what follows it. -/
def readFirst (cs : List Char) : Option (Json × List Char) :=
  readValue (2 * cs.length + 2) maxDepth (skipGap cs)

/-- The value of a text that holds exactly one. -/
def parse? (text : String) : Option Json :=
  match readFirst text.toList with
  | some (j, rest) => if (skipGap rest).isEmpty then some j else none
  | none => none

/-- The first value of a text, whatever follows it. -/
def parsePrefix? (text : String) : Option Json :=
  (readFirst text.toList).map (·.1)

end Json
end ApiPages

import ApiPages.Json.Reader
import ApiPages.Settings.Value
import ApiPages.Text.Numeral

/-!
# Strings and numbers of settings files

The four kinds of strings, and everything that is written as one bare word: truth values, whole
numbers in four bases, decimal numbers, dates and times.

* `Toml.string?` reads a string of any kind from its opening quotes on;
* `Toml.word?` says what a bare word stands for.
-/

namespace ApiPages
namespace Toml

def isGap (c : Char) : Bool := c == ' ' || c == '\t'

def skipGap (cs : List Char) : List Char := cs.dropWhile isGap

/-- The characters that may stand within a line as they are. -/
def isPlain (c : Char) : Bool :=
  c == '\t' || (0x20 ≤ c.toNat && c.toNat != 0x7F)

/-- The text after a line break, if one comes next. -/
def lineBreak? : List Char → Option (List Char)
  | '\n' :: rest => some rest
  | '\r' :: '\n' :: rest => some rest
  | _ => none

/-! ## Escapes -/

def shortEscape? (c : Char) : Option Char :=
  match c with
  | 'b' => some '\x08'
  | 't' => some '\t'
  | 'n' => some '\n'
  | 'f' => some '\x0c'
  | 'r' => some '\r'
  | 'e' => some '\x1b'
  | '"' => some '"'
  | '\\' => some '\\'
  | _ => none

/-- The character of a code point, unless there is none. -/
def charOf? (n : Nat) : Option Char :=
  if n.isValidChar then some (Char.ofNat n) else none

/-- An escape after its backslash: the character and how many characters were used. -/
def escape? (cs : List Char) : Option (Char × Nat) :=
  match cs with
  | [] => none
  | c :: rest =>
      let coded (width : Nat) : Option (Char × Nat) := do
        let ds := rest.take width
        if ds.length < width then none
        else
          let n ← Numeral.inBase? 16 ds
          return (← charOf? n, width + 1)
      if c == 'u' then coded 4
      else if c == 'U' then coded 8
      else (shortEscape? c).map (·, 1)

/-- What follows a backslash at the end of a line: the breaks and blanks up to the next text. -/
def continued? (cs : List Char) : Option (List Char) :=
  (lineBreak? (skipGap cs)).map (·.dropWhile fun c => isGap c || c == '\n' || c == '\r')

/-! ## Strings -/

/-- Reads the rest of a string in double quotes on one line; `skip` characters were used already. -/
def basic (acc : List Char) : Nat → List Char → Option (List Char × List Char)
  | _, [] => none
  | skip + 1, _ :: rest => basic acc skip rest
  | 0, c :: rest =>
      if c == '"' then some (acc.reverse, rest)
      else if c == '\\' then
        match escape? rest with
        | some (d, used) => basic (d :: acc) used rest
        | none => none
      else if isPlain c then basic (c :: acc) 0 rest
      else none

/-- Reads the rest of a string in single quotes on one line. -/
def literal (acc : List Char) : List Char → Option (List Char × List Char)
  | [] => none
  | c :: rest =>
      if c == '\'' then some (acc.reverse, rest)
      else if isPlain c then literal (c :: acc) rest
      else none

/-- How many of the characters that close a string of several lines still belong to it, when that
many quotes stand in a row. -/
def innerQuotes (run : Nat) : Nat := min (run - 3) 2

/-- Reads the rest of a string of several lines; only in double quotes are there escapes. -/
def several (quote : Char) (acc : List Char) : Nat → List Char → Option (List Char × List Char)
  | _, [] => none
  | skip + 1, _ :: rest => several quote acc skip rest
  | 0, c :: rest =>
      if c == quote then
        let run := ((c :: rest).takeWhile (· == quote)).length
        if 3 ≤ run then
          -- of a longer row of quotes the last three close the string
          let inner := innerQuotes run
          some (acc.reverse ++ List.replicate inner quote, (c :: rest).drop (inner + 3))
        else several quote (c :: acc) 0 rest
      else if c == '\\' && quote == '"' then
        match continued? rest with
        | some after => several quote acc (rest.length - after.length) rest
        | none =>
            match escape? rest with
            | some (d, used) => several quote (d :: acc) used rest
            | none => none
      else if isPlain c || c == '\n' then several quote (c :: acc) 0 rest
      else if c == '\r' && rest.head? == some '\n' then several quote (c :: acc) 0 rest
      else none

/-- The text of a string of several lines starts after a line break right behind the quotes. -/
def afterOpening (cs : List Char) : List Char :=
  (lineBreak? cs).getD cs

def string? : List Char → Option (List Char × List Char)
  | '"' :: '"' :: '"' :: rest => several '"' [] 0 (afterOpening rest)
  | '\'' :: '\'' :: '\'' :: rest => several '\'' [] 0 (afterOpening rest)
  | '"' :: rest => basic [] 0 rest
  | '\'' :: rest => literal [] rest
  | _ => none

/-! ## Numbers -/

/-- Takes the underscores out of a number; each has to stand between two digits. -/
def withoutUnderscores? (isDigit : Char → Bool) (before : Bool) : List Char → Option (List Char)
  | [] => some []
  | '_' :: c :: rest =>
      if before && isDigit c then withoutUnderscores? isDigit false (c :: rest) else none
  | ['_'] => none
  | c :: rest => (withoutUnderscores? isDigit (isDigit c) rest).map (c :: ·)

def isHex (c : Char) : Bool := (Json.hexValue c).isSome

/-- A whole number of 64 bits. -/
def inRange? (n : Int) : Option Int :=
  if Numeral.fitsWord n then some n else none

/-- Whether a run of decimal digits may start a number: no idle zero leads it. -/
def leadsNumber (ds : List Char) : Bool :=
  !ds.isEmpty && (ds.length == 1 || ds.head? != some '0')

def based? (base : Nat) (ds : List Char) : Option Int := do
  let ds ← withoutUnderscores? isHex false ds
  let n ← Numeral.inBase? base ds
  inRange? n

def whole? (cs : List Char) : Option Int :=
  match cs with
  | '0' :: 'x' :: ds => based? 16 ds
  | '0' :: 'o' :: ds => based? 8 ds
  | '0' :: 'b' :: ds => based? 2 ds
  | _ => do
      let (negative, ds) := Decimal.sign cs
      let ds ← withoutUnderscores? Char.isDigit false ds
      if leadsNumber ds && ds.all Char.isDigit then
        let n := (Decimal.digitsValue ds : Int)
        inRange? (if negative then -n else n)
      else none

def decimal? (cs : List Char) : Option Decimal := do
  let (_, ds) := Decimal.sign cs
  let bare ← withoutUnderscores? Char.isDigit false ds
  let lead := bare.takeWhile Char.isDigit
  let isWhole := match bare.dropWhile Char.isDigit with
    | '.' :: rest => (rest.head?.map Char.isDigit).getD false
    | _ => true
  if leadsNumber lead && isWhole then
    let d ← Decimal.ofChars? (cs.filter (· != '_'))
    if d.isTooLarge then none else some d
  else none

/-! ## Dates and times -/

/-- Whether the text has the shape of the pattern, where `d` stands for a digit; gives the rest. -/
def matches? : List Char → List Char → Option (List Char)
  | [], cs => some cs
  | p :: ps, c :: cs => if (if p == 'd' then c.isDigit else p == c) then matches? ps cs else none
  | _ :: _, [] => none

def isZone (cs : List Char) : Bool :=
  cs.isEmpty || cs == ['Z'] || cs == ['z'] ||
    match cs with
    | c :: rest => (c == '+' || c == '-') && matches? "dd:dd".toList rest == some []
    | [] => true

def clock? (cs : List Char) : Option (List Char) :=
  match matches? "dd:dd:dd".toList cs with
  | some ('.' :: rest) =>
      if (rest.head?.map Char.isDigit).getD false then some (rest.dropWhile Char.isDigit) else none
  | other => other

/-- Whether the word is a date, a time, or both. -/
def isInstant (cs : List Char) : Bool :=
  match matches? "dddd-dd-dd".toList cs with
  | some [] => true
  | some (c :: rest) =>
      (c == 'T' || c == 't' || c == ' ') && ((clock? rest).map isZone).getD false
  | none => clock? cs == some []

/-! ## Words -/

def isWordChar (c : Char) : Bool :=
  c.isAlphanum || c == '+' || c == '-' || c == '_' || c == '.' || c == ':'

/-- A bare word and the rest.  A blank joins a date with a time. -/
def wordSpan (cs : List Char) : List Char × List Char :=
  let word := cs.takeWhile isWordChar
  let rest := cs.dropWhile isWordChar
  match rest with
  | ' ' :: more =>
      if (matches? "dddd-dd-dd".toList word).isSome && (matches? "dd:".toList more).isSome then
        (word ++ ' ' :: more.takeWhile isWordChar, more.dropWhile isWordChar)
      else (word, rest)
  | _ => (word, rest)

def specialWords : List (String × String) :=
  [("inf", "+Inf"), ("+inf", "+Inf"), ("-inf", "-Inf"), ("nan", "NaN"), ("+nan", "NaN"),
    ("-nan", "NaN")]

def word? (cs : List Char) : Option Setting :=
  let s := String.ofList cs
  if s == "true" then some (.bool true)
  else if s == "false" then some (.bool false)
  else
    match specialWords.lookup s with
    | some spelling => some (.number spelling)
    | none =>
        match whole? cs with
        | some n => some (.number (toString n))
        | none =>
            match decimal? cs with
            | some d => some (Setting.ofDecimal d)
            | none => if isInstant cs then some .instant else none

end Toml
end ApiPages

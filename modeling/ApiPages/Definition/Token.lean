import ApiPages.Text.Decimal
import ApiPages.Text.Numeral
import ApiPages.Text.Utf8

/-!
# Tokens of a definition file

Words, numbers, strings and marks, with white space and comments dropped.

* `Lex.literal?` reads a string, `Lex.number?` understands a number;
* `Definition.tokens?` gives nothing for a text that cannot be divided into tokens.
-/

namespace ApiPages
namespace Definition

inductive Token where
  | word (text : String)
  /-- A whole number of 64 bits. -/
  | whole (n : Nat)
  | decimal (isZero : Bool)
  | text (bytes : List UInt8)
  | mark (c : Char)
  deriving DecidableEq, Repr

namespace Lex

/-! ## White space and comments -/

def isSpace (c : Char) : Bool :=
  [' ', '\n', '\r', '\t', '\x0b', '\x0c'].contains c

/-- The text after a comment that ends with its line.  A null character is not part of any
comment. -/
def afterLine? : List Char → Option (List Char)
  | [] => some []
  | '\n' :: rest => some rest
  | '\x00' :: _ => none
  | _ :: rest => afterLine? rest

/-- The text after a comment that has to be closed. -/
def afterBlock? : List Char → Option (List Char)
  | '*' :: '/' :: rest => some rest
  | '\x00' :: _ => none
  | _ :: rest => afterBlock? rest
  | [] => none

/-! ## Words -/

def isWordStart (c : Char) : Bool := c.isAlpha || c == '_'

def isWordChar (c : Char) : Bool := c.isAlphanum || c == '_'

/-! ## Strings -/

/-- A hexadecimal number that may have a sign. -/
def hexadecimal? (cs : List Char) : Option Int :=
  match cs with
  | '+' :: ds => (Numeral.inBase? 16 ds).map fun n => (n : Int)
  | '-' :: ds => (Numeral.inBase? 16 ds).map fun n => -(n : Int)
  | ds => (Numeral.inBase? 16 ds).map fun n => (n : Int)

/-- The bytes of the character with a number; there is a sign for what is no character. -/
def charBytes (n : Int) : List UInt8 :=
  String.utf8EncodeChar
    (if 0 ≤ n && n.toNat.isValidChar then Char.ofNat n.toNat else Utf8.replacement)

/-- What the escapes of one letter stand for. -/
def unescape? (c : Char) : Option UInt8 :=
  match c with
  | 'a' => some 7
  | 'b' => some 8
  | 't' => some 9
  | 'n' => some 10
  | 'v' => some 11
  | 'f' => some 12
  | 'r' => some 13
  | '\\' | '\'' | '"' | '?' => some (UInt8.ofNat c.toNat)
  | _ => none

/-- The digits of an escape that takes a fixed number of them, in a string with a given quote. -/
def escapeDigits? (quote : Char) (width : Nat) (cs : List Char) : Option (Int × List Char) :=
  let ds := cs.take width
  if ds.length < width || ds.any (fun c => c == quote || c == '\\') then none
  else (hexadecimal? ds).map fun n => (n, cs.drop width)

/-- The bytes of an escape after its backslash. -/
def escape? (quote : Char) (cs : List Char) : Option (List UInt8 × List Char) :=
  let isOctal (c : Char) : Bool := '0' ≤ c && c ≤ '7'
  match cs with
  | [] => none
  | c :: rest =>
      if c == 'x' || c == 'X' then
        let width := if (rest.drop 1).head?.any Numeral.isHexDigit then 2 else 1
        (escapeDigits? quote width rest).map fun (n, rest) => ([UInt8.ofNat (n % 256).toNat], rest)
      else if isOctal c then
        let ds := (cs.take 3).takeWhile isOctal
        match Numeral.inBase? 8 ds with
        | some n => if n < 256 then some ([UInt8.ofNat n], cs.drop ds.length) else none
        | none => none
      else if c == 'u' then
        (escapeDigits? quote 4 rest).map fun (n, rest) => (charBytes n, rest)
      else if c == 'U' then
        match escapeDigits? quote 8 rest with
        | some (n, rest) => if 0 ≤ n && n ≤ 0x10FFFF then some (charBytes n, rest) else none
        | none => none
      else (unescape? c).map fun b => ([b], rest)

/-- A string after its opening quote. -/
def literal? (fuel : Nat) (quote : Char) (acc : List UInt8) (cs : List Char) :
    Option (List UInt8 × List Char) :=
  match fuel with
  | 0 => none
  | fuel + 1 =>
      match cs with
      | [] => none
      | c :: rest =>
          if c == '\n' || c == '\x00' then none
          else if c == quote then some (acc.reverse, rest)
          else if c == '\\' then do
            let (bytes, rest) ← escape? quote rest
            literal? fuel quote (bytes.reverse ++ acc) rest
          else literal? fuel quote ((String.utf8EncodeChar c).reverse ++ acc) rest

/-! ## Numbers -/

/-- The characters of a number.  A sign belongs to it only after the mark of an exponent. -/
def numberChars (maySign : Bool) : List Char → List Char
  | [] => []
  | c :: rest =>
      if (c == '+' || c == '-') && maySign then c :: numberChars false rest
      else if isWordChar c || c == '.' then c :: numberChars (c == 'e' || c == 'E') rest
      else []

def decimal? (cs : List Char) : Option Token :=
  (Decimal.ofChars? cs).map fun d => .decimal (d.digits == 0)

/-- The number that characters stand for.  A leading zero makes a whole number octal, and one that
is too large for 64 bits is a decimal number. -/
def number? (cs : List Char) : Option Token :=
  let isHex := match cs with
    | '0' :: x :: _ => x == 'x' || x == 'X'
    | _ => false
  if isHex then
    ((Numeral.inBase? 16 (cs.drop 2)).filter Numeral.fitsUnsigned).map .whole
  else if cs.any fun c => c == '.' || c == 'e' || c == 'E' then decimal? cs
  else do
    let n ← Numeral.inBase? (if cs.head? == some '0' then 8 else 10) cs
    if Numeral.fitsUnsigned n then some (.whole n) else decimal? cs

/-! ## Tokens -/

def isMark (c : Char) : Bool :=
  [';', ',', '.', ':', '=', '-', '+', '(', ')', '\x7b', '\x7d', '[', ']', '<', '>', '/'].contains c

/-- Divides a text into tokens, which are collected in reverse. -/
def scan (fuel : Nat) (acc : List Token) (cs : List Char) : Option (List Token) :=
  match fuel with
  | 0 => none
  | fuel + 1 =>
      match cs with
      | [] => some acc.reverse
      | '/' :: '/' :: rest => (afterLine? rest).bind (scan fuel acc)
      | '/' :: '*' :: rest => (afterBlock? rest).bind (scan fuel acc)
      | c :: rest =>
          if isSpace c then scan fuel acc rest
          else if isWordStart c then
            scan fuel (.word (String.ofList (cs.takeWhile isWordChar)) :: acc)
              (cs.dropWhile isWordChar)
          else if c.isDigit || (c == '.' && rest.head?.any Char.isDigit) then
            let ds := numberChars false cs
            (number? ds).bind fun t => scan fuel (t :: acc) (cs.drop ds.length)
          else if c == '"' || c == '\'' then
            (literal? cs.length c [] rest).bind fun (bytes, rest) =>
              scan fuel (.text bytes :: acc) rest
          else if isMark c then scan fuel (.mark c :: acc) rest
          else none

end Lex

/-- The tokens of a text, which may begin with the mark of its byte order. -/
def tokens? (text : String) : Option (List Token) :=
  let cs := match text.toList with
    | '\uFEFF' :: rest => rest
    | cs => cs
  Lex.scan (cs.length + 1) [] cs

end Definition
end ApiPages

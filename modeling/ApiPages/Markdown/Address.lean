import ApiPages.Markdown.Block
import ApiPages.Text.Numeral

/-!
# Addresses and tags

Addresses that are links by themselves, bare or between angle brackets, and the tags that look like
them.

* `Address.scheme?` and `Address.isSafe` tell where a bare address begins;
* `Address.bare` is the address without the punctuation after it;
* `Address.anchor?` is an address that markup has made a link already;
* `Address.angle?` reads what stands between angle brackets.
-/

namespace ApiPages
namespace Markdown
namespace Address

open Scan

/-! ## Bare addresses -/

/-- The beginnings of addresses that are links by themselves. -/
def schemes : List (List Char) :=
  ["http://", "https://", "ftp://", "mailto:"].map String.toList

/-- The scheme at the beginning of a text, in either case. -/
def scheme? (cs : List Char) : Option (List Char) :=
  schemes.find? fun s => (cs.take s.length).map Char.toLower == s

/-- Whether a letter or a digit follows the scheme. -/
def isSafe (cs : List Char) : Bool :=
  match scheme? cs with
  | some s => (cs.drop s.length).head?.any Char.isAlphanum
  | none => false

/-- Whether a text, given in reverse, ends in a character reference. -/
def endsInReference (reversed : List Char) : Bool :=
  match reversed with
  | ';' :: rest =>
      match rest.dropWhile (· != '&') with
      | [] => false
      | _ => isName (rest.takeWhile (· != '&')).reverse
  | _ => false
where
  /-- Whether a name stands for a character: letters and up to two digits, or a number. -/
  isName (name : List Char) : Bool :=
    match name with
    | '#' :: 'x' :: digits | '#' :: 'X' :: digits =>
        1 ≤ digits.length && digits.length ≤ 6 && digits.all Numeral.isHexDigit
    | '#' :: digits => 1 ≤ digits.length && digits.length ≤ 7 && digits.all Char.isDigit
    | _ =>
        let letters := name.takeWhile Char.isAlpha
        let digits := name.drop letters.length
        2 ≤ letters.length && letters.length ≤ 31 && digits.length ≤ 2 && digits.all Char.isDigit

/-- The opening partner of a closing mark. -/
def partner? (c : Char) : Option Char :=
  match c with
  | '"' => some '"'
  | '\'' => some '\''
  | ')' => some '('
  | ']' => some '['
  | '\x7d' => some '\x7b'
  | _ => none

/-- Whether a closing mark is matched in the line before it, which is given in reverse. -/
def isMatched (close opener : Char) (depth : Nat) : List Char → Bool
  | [] => depth == 0
  | c :: rest =>
      if depth == 0 then true
      else if c == '\n' then false
      else
        let depth := if c == close then depth + 1 else depth
        isMatched close opener (if c == opener then depth - 1 else depth) rest

/-- The text, given in reverse, without a character of a kind at its end, unless that is escaped. -/
def withoutLast (isLast : Char → Bool) (reversed : List Char) : List Char :=
  match reversed with
  | c :: rest => if isLast c && rest.head? != some '\\' then rest else reversed
  | [] => []

/-- An address at the beginning of a text, without the punctuation that ends a sentence.  A bracket
at its end belongs to it unless it was opened before. -/
def bare (before cs : List Char) : List Char :=
  let all := (cs.takeWhile fun c => !isSpace c && c != '<').reverse
  let all := withoutLast (fun c => c == '.' || c == ',') all
  let all := if endsInReference all then all else withoutLast (· == ';') all
  match all with
  | c :: rest =>
      match partner? c with
      | some opener => if isMatched c opener 1 (rest ++ before) then rest.reverse else all.reverse
      | none => all.reverse
  | [] => []

/-! ## Anchors -/

def isUrlChar (c : Char) : Bool :=
  c.isAlphanum || "-+&@#/%?=~_|!:,.;()".toList.contains c

/-- The text after an address as it stands in an anchor. -/
def url? (cs : List Char) : Option (List Char) := do
  let body ← ["http://", "https://", "ftp://", "/"].findSome? fun s => s.toList.isPrefixOf? cs
  if body.head?.any isUrlChar then some (body.dropWhile isUrlChar) else none

/-- The text after one blank. -/
def blank? (cs : List Char) : Option (List Char) :=
  match cs with
  | c :: rest => if isSpace c && c != '\x0b' then some rest else none
  | [] => none

/-- The text after the title of an anchor. -/
def title? (cs : List Char) : Option (List Char) := do
  let rest ← "title=\"".toList.isPrefixOf? (← blank? cs)
  let isTitleChar (c : Char) : Bool := c != '"' && c != '<' && c != '>'
  match rest, rest.dropWhile isTitleChar with
  | c :: _, '"' :: after => if isTitleChar c then some after else none
  | _, _ => none

/-- The text after an anchor whose text is an address. -/
def anchor? (cs : List Char) : Option (List Char) := do
  let rest ← "href=\"".toList.isPrefixOf? (← blank? (← "<a".toList.isPrefixOf? cs))
  let rest ← ['"'].isPrefixOf? (← url? rest)
  let rest := (title? rest).getD rest
  let rest := (blank? rest).getD rest
  "</a>".toList.isPrefixOf? (← url? (← ['>'].isPrefixOf? rest))

/-- The text after the anchor that a place lies in.  `before` is the text before the place, in
reverse. -/
def aroundAnchor? (before cs : List Char) : Option (List Char) :=
  match before.dropWhile (· != '<') with
  | [] => none
  | opener :: _ => anchor? (opener :: ((before.takeWhile (· != '<')).reverse ++ cs))

/-! ## Angle brackets -/

/-- What stands between angle brackets. -/
inductive Angle where
  | tag
  | address (destination : List Char)
  deriving DecidableEq, Repr

/-- The text of an address up to the character that ends it; a backslash hides the next one. -/
def addressEnd? : List Char → Option (List Char)
  | [] => none
  | ['\\'] => none
  | '\\' :: _ :: rest => addressEnd? rest
  | c :: rest =>
      if c == '>' || c == '\'' || c == '"' || isSpace c then some (c :: rest) else addressEnd? rest

/-- The text after a mail address, which holds one at-sign. -/
def mailEnd? (cs : List Char) : Option (List Char) :=
  let isMailChar (c : Char) : Bool :=
    c.isAlphanum || c == '.' || c == '-' || c == '_' || c == '@'
  match cs.dropWhile isMailChar with
  | '>' :: rest => if (cs.takeWhile isMailChar).count '@' == 1 then some rest else none
  | _ => none

/-- The text after a tag: up to the closing bracket, or as far as `rest` if there is none. -/
def tagEnd (rest : List Char) : List Char :=
  match rest.dropWhile (· != '>') with
  | [] => rest
  | _ :: after => after

/-- What begins with an angle bracket, and the text after it. -/
def angle? (cs : List Char) : Option (Angle × List Char) :=
  match Block.comment? cs with
  | some rest => some (.tag, rest)
  | none =>
      match cs with
      | '<' :: inner =>
          let body := match inner with
            | '/' :: more => more
            | _ => inner
          let isNameChar (c : Char) : Bool := c.isAlphanum || c == '.' || c == '+' || c == '-'
          if cs.length < 3 || !body.head?.any Char.isAlphanum then none
          else
            let rest := body.dropWhile isNameChar
            let between (after : List Char) : List Char := (consumed inner after).dropLast
            match rest, mailEnd? rest with
            | '@' :: _, some after => some (.address ("mailto:".toList ++ between after), after)
            | ':' :: path, _ =>
                if (consumed inner rest).length < 2 then some (.tag, tagEnd rest)
                else
                  match path, addressEnd? path with
                  | [], _ => some (.tag, [])
                  | _, none => none
                  | _, some ('>' :: after) =>
                      if (consumed path after).length == 1 then some (.tag, after)
                      else some (.address (between after), after)
                  | _, some stop => some (.tag, tagEnd stop)
            | _, _ => some (.tag, tagEnd rest)
      | _ => none

end Address
end Markdown
end ApiPages

import ApiPages.Markdown.Scan
import ApiPages.Text.Numeral

/-!
# Blocks of a document

The block constructs that a reader of the format distinguishes, each as a function of the text left
to read.

* `heading?`, `underlinedLevel?` recognise headings;
* `fence?` reads a fenced block, `code` an indented one;
* `isRule`, `quoteMark?`, `bullet?`, `number?`, `definition?` recognise the beginnings of lines;
* `table?` reads a table, `html?` a block of markup, `math?` a displayed formula;
* `linkDefinition?` reads a link definition.
-/

namespace ApiPages
namespace Markdown
namespace Block

open Scan

/-! ## Headings -/

/-- The text after the signs of a heading. -/
def prefixHeading? (cs : List Char) : Option (List Char) :=
  let signs := min 6 (cs.takeWhile (· == '#')).length
  match cs.drop signs with
  | ' ' :: rest => if signs == 0 then none else some (' ' :: rest)
  | _ => none

/-- The text after the sign of a heading that has no level. -/
def specialHeading? (cs : List Char) : Option (List Char) :=
  match cs with
  | '.' :: '#' :: ' ' :: c :: rest => some (' ' :: c :: rest)
  | _ => none

/-- The text after the signs of a heading of either form. -/
def headingBody? (cs : List Char) : Option (List Char) :=
  (prefixHeading? cs).or (specialHeading? cs)

/-- Splits a heading at an explicit identifier: the text before it and what follows it. -/
def headingId? : List Char → List Char → Option (List Char × List Char)
  | _, [] => none
  | before, c :: rest =>
      match c, rest with
      | '\x7b', '#' :: more =>
          if more.contains '\x7d' then
            some (before.reverse, (more.dropWhile (· != '\x7d')).drop 1)
          else none
      | _, _ => headingId? (c :: before) rest

/-- Drops the signs that close a heading.  The text is given in reverse. -/
def dropSigns : List Char → List Char
  | '#' :: rest => if isEscaped rest then '#' :: rest else dropSigns rest
  | cs => cs

/-- The text of a heading without the signs that close it and the spaces before them. -/
def closedHeading (text : List Char) : List Char :=
  ((dropSigns text.reverse).dropWhile (· == ' ')).reverse

/-- A heading line: its text and the text left. -/
def heading? (cs : List Char) : Option (List Char × List Char) :=
  (headingBody? cs).map fun body =>
    let text := skip ' ' (line body)
    match headingId? [] text with
    | some (before, after) =>
        (closedHeading (before.reverse.dropWhile (· == ' ')).reverse, after ++ fromLineEnd body)
    | none => (closedHeading text, fromLineEnd body)

/-- The level of the heading that the first line underlines.  The line must have an end. -/
def underlinedLevel? (cs : List Char) : Option Nat :=
  match cs with
  | c :: _ =>
      if c == '=' || c == '-' then
        match skip ' ' (skip c cs) with
        | '\n' :: _ => some (if c == '=' then 1 else 2)
        | _ => none
      else none
  | [] => none

/-! ## Code -/

/-- The text of an indented line. -/
def codePrefix? (cs : List Char) : Option (List Char) :=
  match cs with
  | '\t' :: rest => some rest
  | ' ' :: ' ' :: ' ' :: ' ' :: rest => some rest
  | _ => none

/-- Passes the lines of an indented block. -/
def code (fuel : Nat) (cs : List Char) : List Char :=
  match fuel with
  | 0 => cs
  | fuel + 1 =>
      if (codePrefix? cs).isSome || (blankLine? cs).isSome then code fuel (afterLine cs) else cs

/-- The mark of a fence line and the text after the mark. -/
def fenceMark? (cs : List Char) : Option (List Char × List Char) :=
  let body := skipUpTo 3 ' ' cs
  match body with
  | c :: _ =>
      let mark := body.takeWhile (· == c)
      if (c == '\x60' || c == '~') && 3 ≤ mark.length then some (mark, body.drop mark.length)
      else none
  | [] => none

/-- Passes the spaces at the end of a line and its newline; none if anything else is there. -/
def lineEnd? (cs : List Char) : Option (List Char) :=
  match skip ' ' cs with
  | [] => some []
  | '\n' :: rest => some rest
  | _ => none

/-- The information after an opening mark, and the text left.  It may stand in braces. -/
def fenceInfo? (cs : List Char) : Option (List Char × List Char) :=
  match cs with
  | '\x7b' :: rest =>
      let inner := rest.takeWhile (fun c => c != '\x7d' && c != '\n')
      match rest.drop inner.length with
      | '\x7d' :: after =>
          let inner := (inner.dropWhile isSpace).reverse
          some ((inner.dropWhile isSpace).reverse, after)
      | _ => none
  | _ => some (line cs, fromLineEnd cs)

/-- An opening fence line: mark, information, and the text after the line. -/
def fenceOpening? (cs : List Char) : Option (List Char × List Char × List Char) := do
  let (mark, after) ← fenceMark? cs
  match skip ' ' after with
  | [] => some (mark, [], [])
  | body => do
      let (info, after) ← fenceInfo? body
      let rest ← lineEnd? after
      some (mark, info, rest)

/-- Passes the lines up to a closing fence line with exactly the opening mark. -/
def fenceBody? (fuel : Nat) (mark : List Char) (cs : List Char) : Option (List Char) :=
  match fuel with
  | 0 => none
  | fuel + 1 =>
      let close := do
        let (m, after) ← fenceMark? cs
        if m == mark then lineEnd? after else none
      match close with
      | some rest => some rest
      | none => if (afterLine cs).isEmpty then none else fenceBody? fuel mark (afterLine cs)

/-- The characters of which a backslash in an information takes the meaning. -/
def escapable : List Char := "!\"#$%&'()*+,./:;<=>?@[\\]^_\x60\x7b|\x7d~-".toList

/-- The character that a reference stands for, after its ampersand, and the text after it.  A name
is kept as it stands. -/
def character? (cs : List Char) : Option (List Char × List Char) :=
  let body := cs.takeWhile fun c => c.isAlphanum || c == '#'
  match cs.drop body.length with
  | ';' :: rest =>
      match body with
      | '#' :: 'x' :: ds | '#' :: 'X' :: ds => (number 16 8 ds).map fun c => (c, rest)
      | '#' :: ds => (number 10 8 ds).map fun c => (c, rest)
      | c :: name =>
          if c.isAlpha && name.all Char.isAlphanum && 1 ≤ name.length && name.length ≤ 31 then
            some ('&' :: body ++ [';'], rest)
          else none
      | [] => none
  | _ => none
where
  /-- The character with a number; one that is none has a sign of its own. -/
  number (base most : Nat) (ds : List Char) : Option (List Char) :=
    if most < ds.length then none
    else
      (Numeral.inBase? base ds).map fun n =>
        [if n == 0 || !n.isValidChar then '\uFFFD' else Char.ofNat n]

/-- An information with its references and escapes resolved. -/
def resolved (fuel : Nat) (cs : List Char) : List Char :=
  match fuel with
  | 0 => cs
  | fuel + 1 =>
      match cs with
      | [] => []
      | '\\' :: c :: rest =>
          if escapable.contains c then c :: resolved fuel rest
            else '\\' :: resolved fuel (c :: rest)
      | '&' :: rest =>
          match character? rest with
          | some (text, after) => text ++ resolved fuel after
          | none => '&' :: resolved fuel rest
      | c :: rest => c :: resolved fuel rest

/-- The information of a fenced block.  Only one that holds an ampersand is resolved. -/
def resolvedInfo (info : List Char) : List Char :=
  if info.contains '&' then resolved info.length info else info

/-- A fenced block: its information and the text after it. -/
def fence? (cs : List Char) : Option (List Char × List Char) := do
  let (mark, info, body) ← fenceOpening? cs
  if body.isEmpty then none
  else (fenceBody? (body.length + 1) mark body).map fun rest => (resolvedInfo info, rest)

/-! ## Beginnings of lines -/

/-- A line of three or more equal marks between spaces. -/
def isRule (cs : List Char) : Bool :=
  match skipUpTo 3 ' ' cs with
  | c :: rest =>
      let body := line (c :: rest)
      (c == '*' || c == '-' || c == '_') && body.all (fun d => d == c || d == ' ') &&
        3 ≤ body.count c
  | [] => false

/-- The text after a quotation mark. -/
def quoteMark? (cs : List Char) : Option (List Char) :=
  match skipUpTo 3 ' ' cs with
  | '>' :: ' ' :: rest => some rest
  | '>' :: rest => some rest
  | _ => none

/-- The text after the mark of an unordered item. -/
def bullet? (cs : List Char) : Option (List Char) :=
  match skipUpTo 3 ' ' cs with
  | c :: d :: rest =>
      if (c == '*' || c == '+' || c == '-') && isBlank d then some rest else none
  | _ => none

/-- The text after the mark of an ordered item. -/
def number? (cs : List Char) : Option (List Char) :=
  let body := skipUpTo 3 ' ' cs
  let digits := body.takeWhile Char.isDigit
  if digits.isEmpty then none
  else
    match body.drop digits.length with
    | c :: d :: rest => if (c == '.' || c == ')') && isBlank d then some rest else none
    | _ => none

/-- The text after the mark of a definition. -/
def definition? (cs : List Char) : Option (List Char) :=
  match cs with
  | ':' :: d :: rest => if isBlank d then some rest else none
  | _ => none

/-! ## Tables -/

/-- The first cell of a row and what follows the bars after it.  A backslash can hide a bar;
`before` is the text passed, in reverse. -/
def cell (before current : List Char) : List Char → List Char × List Char × List Char
  | [] => (current.reverse, before, [])
  | c :: rest =>
      if c == '|' && !isEscaped before then
        (current.reverse, '|' :: (rest.takeWhile (· == '|') ++ before), rest.dropWhile (· == '|'))
      else cell (c :: before) (c :: current) rest

def trimSpaces (cs : List Char) : List Char :=
  ((skip ' ' cs).reverse.dropWhile (· == ' ')).reverse

/-- The cells of a row, at most `columns` of them.  More than one bar ends a single cell. -/
def cells (columns : Nat) (before : List Char) (cs : List Char) : List (List Char) :=
  match columns with
  | 0 => []
  | columns + 1 =>
      if cs.isEmpty then []
      else
        let (text, before, rest) := cell before [] cs
        trimSpaces text :: cells columns before rest

/-- The cells of a line; bars at its beginning do not count. -/
def row (columns : Nat) (text : List Char) : List (List Char) :=
  cells columns (text.takeWhile (· == '|')) (skip '|' text)

/-- The number of bars in a line. -/
def bars (before : List Char) : List Char → Nat
  | [] => 0
  | c :: rest => (if c == '|' && !isEscaped before then 1 else 0) + bars (c :: before) rest

/-- The number of columns in a table whose head has bars: bars at its two ends do not count. -/
def columnCount (head : List Char) : Nat :=
  let text := (head.reverse.dropWhile (· == ' '))
  let isClosed := 2 < text.length && text.head? == some '|' && !isEscaped (text.drop 1)
  bars [] head + 1 - (if head.head? == some '|' then 1 else 0) - (if isClosed then 1 else 0)

/-- One column of the line under a table's head: dashes, with a colon at either end. -/
def columnRule? (cs : List Char) : Option (List Char) :=
  let rest := match cs with
    | ':' :: rest => rest
    | _ => cs
  let rest := match skip '-' rest with
    | ':' :: after => after
    | after => after
  if rest.length < cs.length then some (skip ' ' rest) else none

/-- Whether a line, from one of its columns on, has `left` columns.  The text goes on after the
line; without an end of line the last column needs its bar. -/
def isRuleLine (fuel left : Nat) (cs : List Char) : Bool :=
  match fuel with
  | 0 => false
  | fuel + 1 =>
      match cs with
      | [] | '\n' :: _ => left == 0
      | _ =>
          if left == 0 then false
          else
            match columnRule? cs with
            | some ('|' :: rest) => isRuleLine fuel (left - 1) (skip ' ' rest)
            | some ('\n' :: _) => left == 1
            | _ => false

/-- A table's head: its cells, the number of columns, and the text after the line below it. -/
def tableHead? (cs : List Char) : Option (List (List Char) × Nat × List Char) :=
  let head := line cs
  if bars [] head == 0 then none
  else
    let columns := columnCount head
    let isUnderline := head.all fun c => c == '-' || c == ' ' || c == ':' || c == '|'
    let isBlankHead := head.all fun c => c == ' ' || c == '|'
    let (headCells, below) :=
      if isUnderline && !isBlankHead then ([], cs) else (row columns head, afterLine cs)
    let rule := match below with
      | '|' :: rest => rest
      | _ => below
    if !below.isEmpty && isRuleLine (below.length + 1) columns (skip ' ' rule) then
      some (headCells, columns, afterLine below)
    else none

/-- The rows of a table: lines that have a bar. -/
def tableRows (fuel columns : Nat) (found : List (List Char)) (cs : List Char) :
    List (List Char) × List Char :=
  match fuel with
  | 0 => (found, cs)
  | fuel + 1 =>
      if (line cs).contains '|' then
        tableRows fuel columns (found ++ row columns (line cs)) (afterLine cs)
      else (found, cs)

/-- A table: its cells in order, and the text after it. -/
def table? (cs : List Char) : Option (List (List Char) × List Char) :=
  (tableHead? cs).map fun (head, columns, rest) =>
    tableRows (rest.length + 1) columns head rest

/-! ## Markup and formulas -/

/-- The tags that make a block of markup. -/
def blockTags : List String :=
  ["blockquote", "del", "dd", "div", "dl", "dt", "fieldset", "form", "h1", "h2", "h3", "h4", "h5",
    "h6", "iframe", "ins", "li", "math", "noscript", "ol", "pre", "p", "script", "style", "table",
    "ul", "address", "article", "aside", "canvas", "details", "dialog", "figcaption", "figure",
    "footer", "header", "hgroup", "main", "nav", "output", "progress", "section", "svg", "video"]

/-- The text after a comment. -/
def comment? (cs : List Char) : Option (List Char) :=
  match cs with
  | '<' :: '!' :: '-' :: '-' :: c :: rest => go c '-' rest
  | _ => none
where
  go (last beforeLast : Char) : List Char → Option (List Char)
    | [] => none
    | c :: rest =>
        if c == '>' && last == '-' && beforeLast == '-' then some rest else go c last rest

/-- The text after a closing tag that ends a block: the rest of its line and the next line are
blank. -/
def closingTag? (tag : List Char) (cs : List Char) : Option (List Char) := do
  let rest ← ('<' :: '/' :: tag ++ ['>']).isPrefixOf? cs
  let rest ← blankLine? rest
  if rest.isEmpty then some [] else blankLine? rest

def findClosing (tag : List Char) : List Char → Option (List Char)
  | [] => none
  | c :: rest =>
      match closingTag? tag (c :: rest) with
      | some after => some after
      | none => findClosing tag rest

/-- The text after a block of markup. -/
def html? (cs : List Char) : Option (List Char) :=
  match cs with
  | '<' :: rest =>
      let tag := rest.takeWhile Char.isAlphanum
      if blockTags.contains (String.ofList tag) then
        -- these two also stand in running text
        if tag == "ins".toList || tag == "del".toList then none else findClosing tag rest
      else
        match comment? cs with
        | some after => blankLine? after
        | none =>
            match rest with
            | h :: r :: c :: more =>
                if h.toLower == 'h' && r.toLower == 'r' && (c == ' ' || c == '/' || c == '>') then
                  match (line (c :: more)).dropWhile (· != '>') with
                  | [] => none
                  | _ => blankLine? (((c :: more).dropWhile (· != '>')).drop 1)
                else none
            | _ => none
  | _ => none

/-- The text after a formula between pairs of dollar signs. -/
def math? (cs : List Char) : Option (List Char) :=
  match cs with
  | '$' :: '$' :: c :: rest => if c == '$' || (rest.drop 1).isEmpty then none else go (c :: rest)
  | _ => none
where
  go : List Char → Option (List Char)
    | '$' :: '$' :: rest => some rest
    | _ :: rest => go rest
    | [] => none

/-! ## Link definitions -/

/-- The label of a definition, up to the closing bracket. -/
def label? (acc : List Char) : List Char → Option (List Char × List Char)
  | [] => none
  | [c] => if c == ']' then some (acc.reverse, []) else none
  | c :: d :: rest =>
      if c == '\n' || c == '\r' then none
      else if c == ']' then some (acc.reverse, d :: rest)
      else if c == '\\' then label? (d :: c :: acc) rest
      else label? (c :: acc) (d :: rest)

/-- A title on the rest of a line: the text from the end of the line on. -/
def title? (cs : List Char) : Option (List Char) :=
  match cs with
  | c :: rest =>
      if c == '\'' || c == '"' || c == '(' then
        match (line rest).reverse.dropWhile isBlank with
        | d :: _ :: _ => if d == '\'' || d == '"' || d == ')' then some (fromLineEnd rest) else none
        | _ => none
      else none
  | [] => none

/-- A link definition: its label, where it leads, and the text from the end of it on. -/
def linkDefinition? (cs : List Char) : Option (List Char × List Char × List Char) := do
  if (cs.drop 3).isEmpty then none
  else
    let rest ← ['['].isPrefixOf? (skipUpTo 3 ' ' cs)
    let (label, rest) ← label? [] rest
    if label.isEmpty then none
    else
      let rest ← [':'].isPrefixOf? rest
      let rest := rest.dropWhile isBlank
      let rest := match rest with
        | '\n' :: more => more
        | _ => rest
      let rest := rest.dropWhile isBlank
      if rest.isEmpty then none
      else
        let body := match rest with
          | '<' :: more => more
          | _ => rest
        let isLinkChar (c : Char) : Bool := !(c == ' ' || c == '\t' || c == '\n' || c == '\r')
        let link := body.takeWhile isLinkChar
        let after := (body.drop link.length).dropWhile isBlank
        let isBracketed := link.head? == some '<' && link.getLast? == some '>' &&
          !(body.drop link.length).isEmpty
        let link := if isBracketed then (link.drop 1).dropLast else link
        match after with
        | [] => some (label, link, [])
        | '\n' :: more =>
            -- a title may stand on the next line
            match title? (more.dropWhile isBlank) with
            | some rest => some (label, link, rest)
            | none => some (label, link, after)
        | _ => (title? after).map fun rest => (label, link, rest)

end Block
end Markdown
end ApiPages

import ApiPages.Markdown.Address
import ApiPages.Markdown.Emphasis
import ApiPages.Markdown.Outline
import ApiPages.Markdown.Survey
import ApiPages.Text.Case
import ApiPages.Text.Search

/-!
# Running text

Links are found in running text, outside code spans, formulas and markup tags.  Emphasised text and
the text of a link are running text of their own: nothing that begins in them ends outside.

* `Inline.link?` reads a link in one of its three forms;
* `Inline.scan` finds the links of a text, those inside a link's own text included;
* `survey` answers the questions of the edits for a whole document.
-/

namespace ApiPages
namespace Markdown
namespace Inline

open Scan

/-- What is found in running text. -/
inductive Found where
  | link (destination : List Char)
  | fence (info : List Char)
  deriving DecidableEq, Repr

/-! ## Code spans -/

/-- The text up to the first run of `n` backticks, and the text after the run. -/
def spanEnd? (n : Nat) (acc : List Char) : List Char → Option (List Char × List Char)
  | [] => none
  | c :: rest =>
      if (List.replicate n '\x60').isPrefixOf (c :: rest) then some (acc.reverse, rest.drop (n - 1))
      else spanEnd? n (c :: acc) rest

/-- A code span at the beginning of a text: what is found in it, and the text after it.  Three
backticks over several lines make a fenced block. -/
def codeSpan? (cs : List Char) : Option (List Found × List Char) := do
  let size := (cs.takeWhile (· == '\x60')).length
  let (body, rest) ← spanEnd? size [] (cs.drop size)
  let inner := skip ' ' body
  let isBlock := size == 3 && !inner.isEmpty && body.contains '\n' && (line rest).all isSpace
  if isBlock then
    let info := (Block.fenceInfo? (skip ' ' (cs.drop size))).map (·.1)
    some ([.fence (info.getD [])], rest)
  else some ([], rest)

/-! ## Links -/

/-- The text up to the bracket that matches an open one.  `before` is the text passed, in
reverse. -/
def bracketed? (level : Nat) (before : List Char) : List Char → Option (List Char × List Char)
  | [] => none
  | c :: rest =>
      if isEscaped before then bracketed? level (c :: before) rest
      else if c == '[' then bracketed? (level + 1) (c :: before) rest
      else if c == ']' then
        match level with
        | 0 => some (before.reverse, rest)
        | level + 1 => bracketed? level (c :: before) rest
      else bracketed? level (c :: before) rest

/-- The text of a destination up to the parenthesis or quote that ends it. -/
def destination? (parens : Nat) (acc : List Char) : List Char → Option (List Char × List Char)
  | [] => none
  | ['\\'] => none
  | '\\' :: d :: rest => destination? parens (d :: '\\' :: acc) rest
  | c :: rest =>
      if c == '(' then destination? (parens + 1) (c :: acc) rest
      else if c == ')' then
        match parens with
        | 0 => some (acc.reverse, c :: rest)
        | parens + 1 => destination? parens (c :: acc) rest
      else if c == '\'' || c == '"' then some (acc.reverse, c :: rest)
      else destination? parens (c :: acc) rest

/-- The text of a title up to the parenthesis that ends the link, once its quote has come. -/
def titleEnd? (quote : Char) (closed : Bool) (acc : List Char) :
    List Char → Option (List Char × List Char)
  | [] => none
  | '\\' :: d :: rest => titleEnd? quote closed (d :: '\\' :: acc) rest
  | c :: rest =>
      if c == quote then titleEnd? quote true (c :: acc) rest
      else if closed && c == ')' then some (acc.reverse, rest)
      else titleEnd? quote closed (c :: acc) rest

/-- Takes backslashes away, each with its effect on the next character. -/
def unescape : List Char → List Char
  | '\\' :: c :: rest => c :: unescape rest
  | ['\\'] => []
  | c :: rest => c :: unescape rest
  | [] => []

/-- A destination without the spaces and angle brackets around it. -/
def bareDestination (cs : List Char) : List Char :=
  let cs := (cs.reverse.dropWhile isSpace).reverse
  let cs := match cs with
    | '<' :: rest => rest
    | _ => cs
  if cs.getLast? == some '>' then cs.dropLast else cs

/-- A destination in parentheses, possibly with a title, after the opening one. -/
def inlineDestination? (cs : List Char) : Option (List Char × List Char) := do
  let (link, rest) ← destination? 0 [] (cs.dropWhile isSpace)
  match rest with
  | ')' :: after => some (bareDestination link, after)
  | quote :: more =>
      let (title, after) ← titleEnd? quote false [] more
      let last := (title.reverse.dropWhile isSpace).head?
      if last == some '\'' || last == some '"' then some (bareDestination link, after)
      else some (bareDestination (link ++ quote :: title), after)
  | [] => none

/-- A label as a key: line breaks are spaces. -/
def labelKey (text : List Char) : List Char :=
  go none text
where
  go (last : Option Char) : List Char → List Char
    | [] => []
    | c :: rest =>
        if c != '\n' then c :: go (some c) rest
        else if last == some ' ' then go (some c) rest
        else ' ' :: go (some c) rest

/-- The destination a label is defined as; the last definition counts. -/
def defined? (definitions : List (List Char × List Char)) (label : List Char) :
    Option (List Char) :=
  definitions.reverse.lookup (Text.lower (String.ofList label)).toList

/-- A link after its opening bracket. -/
structure Link where
  text : List Char
  destination : List Char
  rest : List Char
  deriving DecidableEq, Repr

/-- Reads a link after its opening bracket.  Text and destination may both be empty. -/
def link? (definitions : List (List Char × List Char)) (cs : List Char) : Option Link := do
  let (text, after) ← bracketed? 0 [] cs
  let (destination, rest) ←
    match after.dropWhile isSpace with
    | '(' :: more => inlineDestination? more
    | '[' :: c :: more =>
        if c == '^' then (defined? definitions (labelKey text)).map fun d => (d, after)
        else if (c :: more).contains ']' then
          let label := (c :: more).takeWhile (· != ']')
          let rest := ((c :: more).dropWhile (· != ']')).drop 1
          let key := if label.isEmpty then labelKey text else label
          (defined? definitions key).map fun d => (d, rest)
        else none
    | _ => (defined? definitions (labelKey text)).map fun d => (d, after)
  return { text, destination := unescape destination, rest }

/-! ## Scanning -/

/-- The characters that a backslash takes the meaning from. -/
def escapable : List Char := "\\`*_\x7b\x7d[]()#+-.!:|&<>~^$".toList

/-- The text after a formula between dollar signs. -/
def formula? (cs : List Char) : Option (List Char) :=
  match cs with
  | '$' :: c :: rest =>
      if c == '$' || rest.isEmpty then none
      else
        match (c :: rest).dropWhile (· != '$') with
        | _ :: after => some after
        | [] => none
  | _ => none

/-- Finds the links of a text.  `depth` bounds how deep texts lie in texts; `before` is the text
passed, in reverse. -/
def scan (definitions : List (List Char × List Char)) (depth fuel : Nat) (inLink : Bool)
    (before : List Char) (cs : List Char) : List Found :=
  match fuel with
  | 0 => []
  | fuel + 1 =>
      match cs with
      | [] => []
      | c :: rest =>
          let goOn (found : List Found) (after : List Char) : List Found :=
            found ++ scan definitions depth fuel inLink
              ((consumed cs after).reverse ++ before) after
          let inside (inLink : Bool) (text : List Char) : List Found :=
            if depth ≤ 1 then [] else scan definitions (depth - 1) fuel inLink [] text
          let pass : Unit → List Found := fun _ =>
            scan definitions depth fuel inLink (c :: before) rest
          -- inside of a link neither a second bracket nor the mark of a note begins another one
          let isBarred := inLink && (before.head? == some '[' || rest.head? == some '^')
          let asLink (text : List Char) : List Found :=
            match (if isBarred then none else link? definitions text) with
            | some l => goOn (.link l.destination :: inside true l.text) l.rest
            | none => pass ()
          if c == '\x60' then
            match codeSpan? cs with
            | some (found, after) => goOn found after
            | none => pass ()
          else if c == '[' || (c == '^' && rest.head? == some '[') then asLink rest
          else if c == '!' then
            match rest with
            | '[' :: body =>
                match (if isBarred then none else link? definitions body) with
                | some l => goOn [] l.rest
                | none => pass ()
            | _ => pass ()
          else if Emphasis.isMark c then
            match Emphasis.read? cs with
            | some m => goOn (inside inLink m.inside) (cs.drop m.size)
            | none => pass ()
          else if c == '<' then
            match Address.angle? cs with
            | some (.tag, after) => goOn [] after
            | some (.address d, after) => goOn [.link (unescape d)] after
            | none => pass ()
          else if c == '\\' then
            match rest with
            | d :: after => if d == '\n' || escapable.contains d then goOn [] after else pass ()
            | [] => []
          else if c == '$' then
            match formula? cs with
            | some after => goOn [] after
            | none => pass ()
          else if !inLink && (Address.scheme? cs).isSome then
            match Address.aroundAnchor? before cs with
            | some after => goOn [] after
            | none =>
                if Address.isSafe cs && !before.head?.any Char.isAlpha then
                  let address := Address.bare before cs
                  if address.isEmpty then pass ()
                  else goOn [.link (unescape address)] (cs.drop address.length)
                else pass ()
          else pass ()

end Inline

/-! ## Surveys -/

/-- What is found in one piece of a document. -/
def foundIn (definitions : List (List Char × List Char)) : Piece → List Inline.Found
  | .heading text | .text text =>
      Inline.scan definitions Outline.maxDepth (text.length + 1) false [] text
  | .fence info => [.fence info]

/-- Whether the information of a fenced block begins with a shell's name. -/
def isShellInfo (info : List Char) : Bool :=
  shellNames.contains (String.ofList (info.takeWhile (· != ' ')))

/-- The survey of a document. -/
def survey : Surveyor := fun src =>
  let o := Outline.ofText src
  let found := o.pieces.flatMap (foundIn o.definitions)
  { hasHeading := o.pieces.any fun p => p matches .heading _
    hasShellFence := found.any fun f =>
      match f with
      | .fence info => isShellInfo info
      | .link _ => false
    destinations := found.filterMap fun f =>
      match f with
      | .link d => some (String.ofList d)
      | .fence _ => none }

end Markdown
end ApiPages

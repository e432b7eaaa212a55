import ApiPages.Markdown.Block
import ApiPages.Text.Case

/-!
# The outline of a document

The headings, fenced blocks and pieces of running text of a document, in order, and the link
definitions found on the way.  Quotations and lists hold blocks of their own; the nesting that is
followed has a limit.

* `Outline.quotation` gathers the lines of a quotation, `Outline.item` those of a list item;
* `Outline.paragraph` finds the end of a paragraph;
* `Outline.ofText` reads a document.
-/

namespace ApiPages
namespace Markdown

/-- One piece of a document. -/
inductive Piece where
  | heading (text : List Char)
  | fence (info : List Char)
  | text (content : List Char)
  deriving DecidableEq, Repr

structure Outline where
  pieces : List Piece := []
  /-- Labels in lower case with the destinations they are defined as. -/
  definitions : List (List Char × List Char) := []
  deriving DecidableEq, Repr

namespace Outline

open Scan Block

def append (a b : Outline) : Outline :=
  { pieces := a.pieces ++ b.pieces, definitions := a.definitions ++ b.definitions }

instance : Append Outline := ⟨append⟩

def ofPieces (pieces : List Piece) : Outline := { pieces }

/-- A paragraph, unless it is empty. -/
def ofParagraph (content : List Char) : Outline :=
  if content.isEmpty then {}
  else
    let body := skip ' ' content
    let body := if body.getLast? == some '\n' then body.dropLast else body
    ofPieces [.text (body.reverse.dropWhile (· == ' ')).reverse]

/-! ## Quotations -/

/-- The next line of a quotation.  A fenced block that begins in it is taken whole. -/
def quotedLine (acc : List Char) : List Char → List Char × List Char
  | [] => (acc.reverse, [])
  | '\n' :: rest => (('\n' :: acc).reverse, rest)
  | c :: cs =>
      match fence? (c :: cs) with
      | some (_, rest) =>
          let taken := consumed (c :: cs) rest
          if taken.getLast? == some '\n' then (acc.reverse ++ taken, rest)
          else (acc.reverse ++ taken.dropLast, taken.getLast?.toList ++ rest)
      | none => quotedLine (c :: acc) cs

/-- The text of a quotation and the text after it.  It ends at a blank line that no quoted line
follows.  `lines` are the lines taken so far, the last one first. -/
def quotation (fuel : Nat) (lines : List (List Char)) (cs : List Char) : List Char × List Char :=
  match fuel with
  | 0 => (lines.reverse.flatten, cs)
  | fuel + 1 =>
      if cs.isEmpty then (lines.reverse.flatten, [])
      else
        let (taken, rest) := quotedLine [] cs
        match quoteMark? taken with
        | some body => quotation fuel (body :: lines) rest
        | none =>
            let isOver := (blankLine? cs).isSome &&
              (rest.isEmpty || ((quoteMark? rest).isNone && (blankLine? rest).isNone))
            if isOver then (lines.reverse.flatten, rest) else quotation fuel (taken :: lines) rest

/-! ## Lists -/

inductive ListKind where
  | unordered
  | ordered
  | definitions
  deriving DecidableEq, Repr

/-- What the items of a list found so far say about it. -/
structure ListState where
  kind : ListKind
  /-- An item holds blocks, so that later ones are read as blocks as well. -/
  hasBlocks : Bool := false
  isOver : Bool := false
  /-- The item being read is the term of a definition. -/
  isTerm : Bool := false
  deriving DecidableEq, Repr

/-- Whether a line begins an item of another kind of list. -/
def kindChanges (kind : ListKind) (cs : List Char) : Bool :=
  ((definition? cs).isSome && kind != .definitions) ||
    ((number? cs).isSome && kind != .ordered) ||
    ((bullet? cs).isSome && kind != .unordered)

/-- An item while its lines are gathered. -/
structure ItemState where
  list : ListState
  /-- The text of the item before a nested list, if there is one. -/
  before : Option (List Char) := none
  text : List Char := []
  sawBlank : Bool := false
  /-- A line of the item has been taken. -/
  hasLine : Bool := false

/-- The indentation of a line, counted up to four, and the line without it. -/
def indentation (l : List Char) : Nat × List Char :=
  match l with
  | '\t' :: rest => (4, rest)
  | _ =>
      let n := min 4 (l.takeWhile (· == ' ')).length
      (n, l.drop n)

/-- The text without its last line. -/
def withoutLastLine (text : List Char) : List Char :=
  let r := text.reverse
  let r := match r with
    | '\n' :: more => more
    | _ => r
  (r.dropWhile (· != '\n')).reverse

/-- Gathers the lines of an item.  `indent` is the indentation of the item itself.  Returns the item
and the text after it. -/
def gather (fuel : Nat) (indent : Nat) (s : ItemState) (cs : List Char) : ItemState × List Char :=
  match fuel with
  | 0 => (s, cs)
  | fuel + 1 =>
      if cs.isEmpty then (s, [])
      else if (blankLine? cs).isSome then gather fuel indent
        { s with sawBlank := true, hasLine := true } (afterLine cs)
      else
        let whole := wholeLine cs
        let (depth, chunk) := indentation whole
        let isNested :=
          ((bullet? chunk).isSome && !Block.isRule chunk) || (number? chunk).isSome ||
            (definition? chunk).isSome
        let add (s : ItemState) (chunk : List Char) : ItemState :=
          { s with
            text := s.text ++ (if s.sawBlank then ['\n'] else []) ++ chunk
            sawBlank := false
            hasLine := true }
        let withBlocks (s : ItemState) : ItemState :=
          { s with list := { s.list with hasBlocks := true } }
        let ended : ItemState := { s with list := { s.list with isOver := true } }
        if s.list.kind != .definitions && depth ==
          0 && (fenceOpening? chunk).isSome then (ended, cs)
        else if isNested then
          -- an item that is indented deep stays indented in the text of the item around it
          let deep := 4 ≤ depth && whole.head? != some '\t' && (definition? chunk).isNone
          let chunk :=
            if deep then List.replicate ((chunk.takeWhile (· == ' ')).length + 1) ' ' ++ chunk
            else chunk
          if depth ≤ indent then
            -- an item of the same kind is left to the list, one of another kind ends it
            if kindChanges s.list.kind chunk then (ended, cs)
            else (if s.sawBlank then withBlocks s else s, cs)
          else
            let s := if s.sawBlank then withBlocks s else s
            let s :=
              match s.before with
              | some _ => s
              | none =>
                  if s.text.isEmpty then s
                  else if (definition? chunk).isSome then
                    let kept := withoutLastLine s.text
                    if kept.isEmpty then s
                    else { s with before := some kept, text := s.text.drop kept.length }
                  else { s with before := some s.text, text := [] }
            gather fuel indent (add s chunk) (afterLine cs)
        else if (headingBody? chunk).isSome then
          if s.sawBlank && depth < 4 then (ended, cs)
          else gather fuel indent (add (withBlocks s) chunk) (afterLine cs)
        else if s.sawBlank && depth < 4 then
          if s.list.kind == .definitions && !((afterLine cs).drop 1).isEmpty then
            let next := afterLine cs
            let later := (fromLineEnd next).dropWhile (· == '\n')
            let isOver :=
              next.head? != some ':' && !(later.drop 1).isEmpty && later.head? != some ':'
            (if isOver then ended else s, cs)
          else (ended, cs)
        else if s.sawBlank then
          gather fuel indent (add (withBlocks { s with text := s.text ++ ['\n'] }) chunk)
            (afterLine cs)
        else gather fuel indent (add s chunk) (afterLine cs)

/-- One item of a list: the item, and the text after it. -/
def item? (fuel : Nat) (list : ListState) (cs : List Char) : Option (ItemState × List Char) :=
  let indent := match cs with
    | '\t' :: _ => 4
    | _ => min 3 (cs.takeWhile (· == ' ')).length
  let start (list : ListState) (body : List Char) : ItemState × List Char :=
    let body := skip ' ' body
    gather fuel indent { list, text := wholeLine body, hasLine := true } (afterLine body)
  match (bullet? cs).or (number? cs) with
  | some body => some (start list body)
  | none =>
      if list.kind == .definitions then
        match definition? cs with
        | some body => some (start { list with isTerm := false } body)
        | none =>
            let list := { list with isTerm := true }
            if cs.head? == some ' ' then some (start list cs)
            else some (gather fuel indent { list } cs)
      else none

/-- The items of a list and the text after it; `read` reads the blocks inside an item. -/
def items (read : List Char → Outline) (fuel : Nat) (list : ListState) (cs : List Char) :
    Outline × List Char :=
  match fuel with
  | 0 => ({}, cs)
  | fuel + 1 =>
      if cs.isEmpty then ({}, [])
      else
        match item? (fuel + 1) list cs with
        | none => ({}, cs)
        | some (s, rest) =>
            let inBlocks := s.list.hasBlocks && !s.list.isTerm
            let here := match s.before with
              | some before =>
                  (if inBlocks then read before else ofPieces [.text before]) ++ read s.text
              | none => if inBlocks then read s.text else ofPieces [.text s.text]
            if s.list.isOver || !s.hasLine then (here, rest)
            else
              let (later, rest) := items read fuel s.list rest
              (here ++ later, rest)

/-! ## Paragraphs -/

/-- Whether a line ends the paragraph before it. -/
def endsParagraph (cs : List Char) : Bool :=
  (headingBody? cs).isSome || Block.isRule cs || (quoteMark? cs).isSome || (fence? cs).isSome ||
    (tableHead? cs).isSome

/-- Reads a paragraph.  `done` are the lines before the last one, in reverse order, and `last` is
the last line read. -/
def paragraph (read : List Char → Outline) (fuel : Nat) (done : List (List Char)) (last : List Char)
    (cs : List Char) : Outline × List Char :=
  match fuel with
  | 0 => (ofParagraph (last :: done).reverse.flatten, cs)
  | fuel + 1 =>
      let isFirst := last.isEmpty
      let whole : Unit → Outline := fun _ => ofParagraph (last :: done).reverse.flatten
      let definitions : Unit → Outline × List Char := fun _ =>
        items read (last.length + fuel + 1) { kind := .definitions } (last ++ cs)
      if cs.isEmpty then (whole (), [])
      else
        match linkDefinition? cs with
        | some (label, link, rest) =>
            (whole () ++ { definitions := [(Text.lower (String.ofList label) |>.toList, link)] },
              rest)
        | none =>
            match blankLine? cs with
            | some rest =>
                -- a blank line between a term and its definition is allowed for
                if cs.head? == some '\n' && rest.head? == some ':' then definitions ()
                else (whole (), rest)
            | none =>
                if !isFirst && (underlinedLevel? cs).isSome then
                  let title := if last.getLast? == some '\n' then last.dropLast else last
                  (ofParagraph done.reverse.flatten ++ ofPieces [.heading (trimSpaces title)],
                    fromLineEnd cs)
                else if !isFirst && endsParagraph cs then (whole (), cs)
                else if !isFirst && (definition? cs).isSome then definitions ()
                else paragraph read fuel (last :: done) (wholeLine cs) (afterLine cs)

/-! ## Documents -/

/-- Reads one block and returns the text after it.  `fuel` exceeds the length of the text. -/
def block (read : List Char → Outline) (fuel : Nat) (cs : List Char) : Outline × List Char :=
  match heading? cs with
  | some (text, rest) => (if text.isEmpty then {} else ofPieces [.heading text], rest)
  | none =>
      match html? cs with
      | some rest => ({}, rest)
      | none =>
          match blankLine? cs with
          | some rest => ({}, rest)
          | none =>
              if (codePrefix? cs).isSome then ({}, code fuel cs)
              else
                match fence? cs with
                | some (info, rest) => (ofPieces [.fence info], rest)
                | none =>
                    if Block.isRule cs then ({}, fromLineEnd cs)
                    else if (quoteMark? cs).isSome then
                      let (text, rest) := quotation fuel [] cs
                      (read text, rest)
                    else
                      match table? cs with
                      | some (cells, rest) => (ofPieces (cells.map .text), rest)
                      | none =>
                          if (bullet? cs).isSome then items read fuel { kind := .unordered } cs
                          else if (number? cs).isSome then items read fuel { kind := .ordered } cs
                          else if (definition? cs).isSome then
                            items read fuel { kind := .definitions } cs
                          else
                            match math? cs with
                            | some rest => ({}, rest)
                            | none => paragraph read fuel [] [] cs

/-- Reads the blocks of a text one after the other.  `fuel` exceeds the length of the text. -/
def blocks (read : List Char → Outline) (fuel : Nat) (cs : List Char) : Outline :=
  match fuel with
  | 0 => {}
  | fuel + 1 =>
      if cs.isEmpty then {}
      else
        let (here, rest) := block read (fuel + 1) cs
        here ++ blocks read fuel rest

/-- Reads a text whose blocks nest at most so deep. -/
def nested : Nat → List Char → Outline
  | 0, _ => {}
  | depth + 1, cs => blocks (nested depth) (cs.length + 1) cs

/-- The deepest nesting of blocks that is followed. -/
def maxDepth : Nat := 64

/-- Line breaks in one form. -/
def unifyBreaks : List Char → List Char
  | [] => []
  | '\r' :: '\n' :: rest => '\n' :: unifyBreaks rest
  | c :: rest => (if c == '\r' then '\n' else c) :: unifyBreaks rest

/-- The outline of a document. -/
def ofText (src : String) : Outline :=
  nested maxDepth (unifyBreaks src.toList)

end Outline
end Markdown
end ApiPages

import ApiPages.Markdown.Scan

/-!
# Emphasis

Emphasis is text between equal marks: one mark, two, or three.  The search for the closing mark
passes over code spans and links that come in between.

* `Emphasis.nextMark?` finds the next mark that can close;
* `Emphasis.closeSingle?` and `Emphasis.closeDouble?` find the end of the two simple forms;
* `Emphasis.read?` reads emphasised text from its opening marks on.
-/

namespace ApiPages
namespace Markdown
namespace Emphasis

open Scan

def isMark (c : Char) : Bool := c == '*' || c == '_' || c == '~'

def isPunctuation (c : Char) : Bool :=
  "!\"#$%&'()*+,-./:;<=>?@[\\]^_\x60\x7b|\x7d~".toList.contains c

/-- A place in a text: how much lies before it, the last character of that, and the text from there
on. -/
structure Spot where
  position : Nat
  before : Option Char
  rest : List Char

namespace Spot

/-- The spot after some characters. -/
def advance (s : Spot) : Nat → Spot
  | 0 => s
  | n + 1 =>
      match s.rest with
      | [] => s
      | c :: rest => advance ⟨s.position + 1, some c, rest⟩ n

/-- The first occurrence of a character before another one. -/
def find? (mark stop : Char) (position : Nat) (before : Option Char) : List Char → Option Spot
  | [] => none
  | c :: rest =>
      if c == stop then none
      else if c == mark then some ⟨position, before, c :: rest⟩
      else find? mark stop (position + 1) (some c) rest

/-- The first mark from a spot on, before a stop. -/
def mark? (s : Spot) (mark stop : Char) : Option Spot :=
  find? mark stop s.position s.before s.rest

/-- The spot of the first character that is not of a kind. -/
def pass (s : Spot) (isPassed : Char → Bool) : Spot :=
  s.advance (s.rest.takeWhile isPassed).length

end Spot

/-- The next mark from a spot on.  A code span or a link is passed over; where it has no end, the
first mark inside it counts. -/
def nextMark? (fuel : Nat) (mark : Char) (s : Spot) : Option Spot :=
  match fuel with
  | 0 => none
  | fuel + 1 =>
      match s.rest with
      | [] => none
      | c :: _ =>
          let next := s.advance 1
          if (c != mark && c != '\x60' && c != '[') || s.before == some '\\' then
            nextMark? fuel mark next
          else if c == mark then some s
          else if c == '\x60' then
            let close := next.pass (· != '\x60')
            if close.rest.isEmpty then next.mark? mark '\x60'
              else nextMark? fuel mark (close.advance 1)
          else
            let inside := next.mark? mark ']'
            let target := ((next.pass (· != ']')).advance 1).pass fun d => d == ' ' || d == '\n'
            match target.rest with
            | [] => inside
            | d :: _ =>
                if d == '[' || d == '(' then
                  -- the target ends where its opening bracket comes again
                  let body := target.advance 1
                  match (if inside.isNone then body.mark? mark d else none) with
                  | some found => some found
                  | none =>
                      let close := body.pass (· != d)
                      if close.rest.isEmpty then inside else nextMark? fuel mark (close.advance 1)
                else if inside.isSome then inside
                else nextMark? fuel mark target

/-- Where text between single marks ends.  The closing mark follows no space and ends a word. -/
def closeSingle? (size fuel : Nat) (mark : Char) (s : Spot) : Option Nat :=
  match fuel with
  | 0 => none
  | fuel + 1 =>
      match nextMark? size mark s with
      | none => none
      | some found =>
          let next := found.advance 1
          if !found.before.any isSpace && next.rest.head?.all fun c =>
            isSpace c || isPunctuation c then
            some found.position
          else closeSingle? size fuel mark next

/-- Where text between double marks ends. -/
def closeDouble? (size fuel : Nat) (mark : Char) (s : Spot) : Option Nat :=
  match fuel with
  | 0 => none
  | fuel + 1 =>
      match nextMark? size mark s with
      | none => none
      | some found =>
          let next := found.advance 1
          if next.rest.head? == some mark && !found.before.any isSpace then some found.position
          else closeDouble? size fuel mark (next.advance 1)

/-- Emphasised text that was read: what is inside, and how many characters it took. -/
structure Marked where
  inside : List Char
  size : Nat
  deriving DecidableEq, Repr

/-- The place after the first characters of a text. -/
def start (text : List Char) (n : Nat) : Spot :=
  Spot.advance ⟨0, none, text⟩ n

/-- Text between single marks; `skip` marks at its beginning belong to it. -/
def single? (mark : Char) (skip : Nat) (text : List Char) : Option Marked :=
  let size := text.length + 1
  (closeSingle? size size mark (start text (skip + 1))).map fun i => ⟨text.take i, i + 1⟩

/-- Text between double marks. -/
def double? (mark : Char) (text : List Char) : Option Marked :=
  let size := text.length + 1
  (closeDouble? size size mark (start text 1)).map fun i => ⟨text.take i, i + 2⟩

/-- Text after three marks.  The marks that close it first say how they are paired. -/
def triple? (size fuel : Nat) (mark : Char) (text : List Char) (s : Spot) : Option Marked :=
  match fuel with
  | 0 => none
  | fuel + 1 =>
      match nextMark? size mark s with
      | none => none
      | some found =>
          if found.before.any isSpace then triple? size fuel mark text (found.advance 1)
          else
            match (found.rest.takeWhile (· == mark)).length with
            | 0 | 1 => (double? mark (mark :: text)).map fun m => { m with size := m.size - 1 }
            | 2 => (single? mark 1 (mark :: mark :: text)).map fun m =>
                { m with size := m.size - 2 }
            | _ => some ⟨text.take found.position, found.position + 3⟩

/-- Emphasised text at the beginning of a text that begins with a mark. -/
def read? (text : List Char) : Option Marked :=
  let mark := text.headD '*'
  let opening := (text.takeWhile (· == mark)).length
  let body := text.drop opening
  match body with
  | [] => none
  | c :: rest =>
      let found? :=
        if isSpace c || rest.isEmpty then none
        else
          match opening with
          | 1 => single? mark 0 body
          | 2 => double? mark body
          | 3 =>
              let size := body.length + 1
              if mark == '~' then none else triple? size size mark body (start body 1)
          | _ => none
      found?.map fun m => { m with size := m.size + opening }

end Emphasis
end Markdown
end ApiPages

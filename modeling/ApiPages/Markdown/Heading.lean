import ApiPages.Markdown.Line
import ApiPages.Markdown.Survey

/-!
# Demoting headings

A document that is embedded below a heading has its own headings moved down.  Levels end at six, and
fenced blocks are left as they are.

* `demoteLines` edits lines, carrying the fence it is in;
* `demoteHeadings` edits a document, if it has any heading.
-/

namespace ApiPages
namespace Markdown

/-- A heading level moved down. -/
def demotedLevel (offset level : Nat) : Nat :=
  min (level + offset) 6

/-- A heading line moved down. -/
def demotedAtx (offset : Nat) (indent : List Char) (level : Nat) (rest : List Char) : List Char :=
  indent ++ List.replicate (demotedLevel offset level) '#' ++ rest

/-- An underlined line as a heading line. -/
def demotedTitle (offset level : Nat) (line : List Char) : List Char :=
  List.replicate (demotedLevel offset level) '#' ++ ' ' :: Text.trim line

/-- Moves the headings among lines down.  An underlined heading becomes one line. -/
def demoteLines (offset : Nat) (fence : Option Fence) : List (List Char) → List (List Char)
  | [] => []
  | line :: rest =>
      match fence with
      | some f => line :: demoteLines offset (if f.closes line then none else some f) rest
      | none =>
          match Fence.opening? line with
          | some o => line :: demoteLines offset (some o.fence) rest
          | none =>
              match atx? line with
              | some (indent, level, after) =>
                  demotedAtx offset indent level after :: demoteLines offset none rest
              | none =>
                  match rest with
                  | [] => [line]
                  | next :: more =>
                      -- only text can be underlined; below anything else the next line stands for
                      -- itself
                      match (if isParagraph line then underline? next else none) with
                      | some level => demotedTitle offset level line :: demoteLines offset none more
                      | none => line :: demoteLines offset none (next :: more)

/-- Moves the headings of a document down so that one of the first level lands on level `top`.
Documents are embedded at the levels 2 and 4; the rule holds as long as `top + 5` fits a machine
integer of 64 bits. -/
def demoteHeadings (survey : Surveyor) (top : Int) (src : String) : String :=
  let offset := (top - 1).toNat
  if offset == 0 || !(survey src).hasHeading then src
  else
    String.ofList (['\n'].intercalate (demoteLines offset none (src.toList.splitOn '\n')))

end Markdown
end ApiPages

import ApiPages.Files.Tree

/-!
# Path patterns

Patterns for paths: `*` stands for any run of characters, `?` for one, a class in brackets for one
of several, and a backslash takes the next character as it is.

* `Glob.pattern?` reads a pattern, unless it is broken;
* `Glob.fits` says that a name fits a pattern;
* `Glob.paths?` finds the paths that fit, directory by directory.
-/

namespace ApiPages
namespace Glob

inductive Piece where
  | run
  | one
  | char (c : Char)
  | oneOf (negated : Bool) (ranges : List (Char × Char))
  deriving DecidableEq, Repr

/-! ## Reading patterns -/

/-- One end of a range in a class.  Something has to follow it. -/
def bound? (cs : List Char) : Option (Char × List Char) :=
  let taken := match cs with
    | '\\' :: c :: rest => some (c, rest)
    | c :: rest => if c == '-' || c == ']' || c == '\\' then none else some (c, rest)
    | [] => none
  taken.filter fun t => !t.2.isEmpty

/-- The ranges of a class up to its closing bracket; there has to be one. -/
def ranges? : Nat → List (Char × Char) → List Char → Option (List (Char × Char) × List Char)
  | 0, _, _ => none
  | fuel + 1, acc, cs =>
      match acc, cs with
      -- a class has at least one range
      | _ :: _, ']' :: rest => some (acc.reverse, rest)
      | _, _ => do
          let (low, rest) ← bound? cs
          match rest with
          | '-' :: more =>
              let (high, rest) ← bound? more
              ranges? fuel ((low, high) :: acc) rest
          | _ => ranges? fuel ((low, low) :: acc) rest

def pieces? : Nat → List Char → Option (List Piece)
  | _, [] => some []
  | 0, _ => none
  | fuel + 1, c :: rest =>
      match c, rest with
      | '*', _ => (pieces? fuel rest).map (.run :: ·)
      | '?', _ => (pieces? fuel rest).map (.one :: ·)
      | '\\', d :: more => (pieces? fuel more).map (.char d :: ·)
      | '\\', [] => none
      | '[', _ => do
          let (negated, body) := match rest with
            | '^' :: body => (true, body)
            | _ => (false, rest)
          let (ranges, more) ← ranges? (body.length + 1) [] body
          return .oneOf negated ranges :: (← pieces? fuel more)
      | _, _ => (pieces? fuel rest).map (.char c :: ·)

def pattern? (s : String) : Option (List Piece) :=
  pieces? s.length s.toList

/-! ## Fitting names -/

def Piece.fitsChar : Piece → Char → Bool
  | .run, _ => false
  | .one, c => c != '/'
  | .char d, c => c == d
  | .oneOf negated ranges, c => ranges.any (fun r => r.1 ≤ c && c ≤ r.2) != negated

/-- What may be left of a name after a run, which takes no slash. -/
def afterRun : List Char → List (List Char)
  | [] => [[]]
  | c :: rest => (c :: rest) :: if c == '/' then [] else afterRun rest

def fits : List Piece → List Char → Bool
  | [], cs => cs.isEmpty
  | .run :: ps, cs => (afterRun cs).any (fits ps)
  | p :: ps, c :: cs => p.fitsChar c && fits ps cs
  | _ :: _, [] => false

/-! ## Finding paths -/

def hasMeta (s : String) : Bool :=
  s.toList.any fun c => c == '*' || c == '?' || c == '[' || c == '\\'

/-- The entries of a directory whose names fit. -/
def inDir (t : FileTree) (ps : List Piece) (dir : String) : List String :=
  ((t.list? dir).getD []).filterMap fun e =>
    if fits ps e.1.toList then some (SlashPath.join [dir, e.1]) else none

/-- The directory part of a pattern. -/
def dirPart (pattern : String) : String :=
  let dir := String.ofList (SlashPath.beforeLast pattern.toList)
  if dir.isEmpty then "." else if dir == "/" then dir else Text.cutSuffix dir "/"

/-- The paths that fit a pattern: first the directories that fit its beginning are found, then the
names in each of them.  A broken pattern has none. -/
def pathsWithin (t : FileTree) : Nat → String → Option (List String)
  | 0, _ => none
  | fuel + 1, pattern => do
      -- a pattern is refused as a whole, wherever it is broken
      let _ ← pattern? pattern
      if hasMeta pattern then
        let ps ← pattern? (String.ofList (SlashPath.lastElement pattern.toList))
        let dir := dirPart pattern
        let dirs ← if hasMeta dir then pathsWithin t fuel dir else some [dir]
        return dirs.flatMap (inDir t ps)
      else return if t.exists? pattern then [pattern] else []

def paths? (t : FileTree) (pattern : String) : Option (List String) :=
  pathsWithin t (pattern.length + 1) pattern

end Glob
end ApiPages

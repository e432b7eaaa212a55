import ApiPages.Settings.Basic
import ApiPages.Settings.Value

/-!
# Understanding settings

A table of values is understood by a `Decoder`, which asks a hook about every value first.  Two
hooks are put together here: one takes a text apart where a list is wanted, and one reads a target.

* `Checked` is a value or all the problems met on the way to it;
* `Hook` is a hook, `Hook.targets` the one that reads targets;
* `Decoder` is what hooks are handed to;
* `Settings.decode` understands a whole table.
-/

namespace ApiPages

/-! ## Problems -/

inductive SettingProblem where
  /-- A value that a hook refused, with the place it stands at and what was said of it. -/
  | refused (place message : String)
  /-- A value of the wrong kind. -/
  | shape
  deriving DecidableEq, Repr

/-- A value, or all the problems met on the way to it. -/
abbrev Checked (α : Type) := Except (List SettingProblem) α

/-! ## Hooks -/

/-- What a value is decoded as. -/
inductive Want where
  | text
  | flag
  | texts
  | target
  | targets
  | table
  deriving DecidableEq, Repr

def Want.isList : Want → Bool
  | texts | targets => true
  | _ => false

/-- What a hook is given and gives: a value that is still to be decoded, or a target. -/
inductive Datum where
  | value (s : Setting)
  | target (t : Target)

/-- Sees a value before it is decoded, and may put something else in its place or refuse it. -/
abbrev Hook := Want → Datum → Except String Datum

/-- Reads a text where a target is wanted; everything else passes. -/
def Hook.targets : Hook
  | .target, .value (.text s) =>
      match Target.parse? s with
      | some t => .ok (.target t)
      | none => .error (Target.refusal s)
  | _, d => .ok d

/-! ## Decoders -/

/-- How tables are decoded, values being taken as generously as their meaning allows. -/
structure Decoder where
  /-- The hook that takes a text apart at a mark where a list is wanted. -/
  splitting : Char → Hook
  compose : List Hook → Hook
  decode : Hook → Setting.Members → Checked Settings

/-! ## Settings -/

namespace Settings

/-- Fills in what follows from other settings: variables are named without blanks around them, and a
graph is named after its crate unless it has a name. -/
def completed (s : Settings) : Settings :=
  { s with
    ciVariables := s.ciVariables.map Text.strip
    rustdoc :=
      { s.rustdoc with
        graphName :=
          if s.rustdoc.graphName.isEmpty then Target.fileForm s.rustdoc.crateName
          else s.rustdoc.graphName } }

/-- Lists are texts with commas, and targets are read where they are wanted. -/
def hook (D : Decoder) : Hook :=
  D.compose [D.splitting ',', Hook.targets]

def decode (D : Decoder) (ms : Setting.Members) : Checked Settings :=
  (D.decode (hook D) ms).map completed

/-! ## Messages -/

def problemLine? : SettingProblem → Option String
  | .refused place message => some ("* error decoding '" ++ place ++ "': " ++ message)
  | .shape => none

/-- What is said when every problem is a value that was refused. -/
def problemsMessage? (problems : List SettingProblem) : Option String :=
  (problems.mapM problemLine?).map fun lines =>
    "failed to unmarshal config: " ++ toString problems.length ++ " error(s) decoding:\n\n" ++
      Text.joined "\n" (lines.mergeSort (· ≤ ·))

end Settings
end ApiPages

import ApiPages.Settings.Basic
import ApiPages.Settings.Value

/-!
# Layers of settings

A setting is looked for on the command line, then in the environment, then in the settings file, and
last among the defaults.  Settings within tables go by dotted names, `proto.dir` for one.

* `Layers.names` are the names under which any layer holds a setting;
* `Layers.find?` finds the setting of a name;
* `Layers.merged` is the table of all settings.

A setting that is no table hides, in its own layer and those below, the settings within it.
-/

namespace ApiPages

/-- Where settings come from.  A flag that the command line knows but does not set has no value. -/
structure Layers where
  flags : List (String × Option Setting) := []
  environment : Environment := []
  file : Setting.Members := []
  defaults : Setting.Members := []

namespace Layers

/-! ## Dotted names -/

def pathOf (name : String) : List String := Text.pieces '.' name

def nameOf (path : List String) : String := Text.joined "." path

/-- The proper beginnings of a path, shortest first. -/
def beginnings (path : List String) : List (List String) :=
  ((List.range path.length).drop 1).map path.take

/-- The variable that overrides a setting. -/
def variableOf (name : String) : String :=
  "REFDOCS_" ++ String.ofList (name.toList.map fun c => if c == '.' then '_' else c.toUpper)

/-! ## Searching a table -/

/-- Steps from table to table along a path; nothing found where a value is empty. -/
def search : List String → Setting.Members → Option Setting
  | [], _ => none
  | [key], ms =>
      match ms.lookup key with
      | some .null => none
      | other => other
  | key :: rest, ms =>
      match ms.lookup key with
      | some (.table inner) => search rest inner
      | _ => none

/-- As `search`, but a key of the table may itself be dotted; longer keys come first. -/
def searchDotted (fuel : Nat) (path : List String) (ms : Setting.Members) : Option Setting :=
  match fuel with
  | 0 => none
  | fuel + 1 =>
      (List.range path.length).reverse.findSome? fun i =>
        match ms.lookup (nameOf (path.take (i + 1))) with
        | some .null => none
        | some s =>
            if i + 1 == path.length then some s
            else
              match s with
              | .table inner => searchDotted fuel (path.drop (i + 1)) inner
              | _ => none
        | none => none

/-- Whether a value that is no table stands in the way of a path. -/
def isHidden (path : List String) (ms : Setting.Members) : Bool :=
  (beginnings path).any fun b =>
    match search b ms with
    | some (.table _) => false
    | some _ => true
    | none => false

/-! ## Names -/

mutual

/-- Adds the names of the values in a table, unless a name known already hides them. -/
def addNames (above : String) (known : List String) : Setting.Members → List String
  | [] => known
  | (key, s) :: rest =>
      addNames above (addNamesOf (if above.isEmpty then key else above ++ "." ++ key) known s) rest
termination_by structural ms => ms

def addNamesOf (name : String) (known : List String) : Setting → List String
  | .table members => if known.contains name then known else addNames name known members
  | _ => if known.contains name then known else known ++ [name]
termination_by structural s => s

end

def names (l : Layers) : List String :=
  addNames "" (addNames "" (l.flags.map (·.1)) l.file) l.defaults

/-! ## Values -/

/-- The setting of a name: a layer that holds it decides, and one that hides it ends the search. -/
def find? (l : Layers) (name : String) : Option Setting :=
  let path := pathOf name
  match l.flags.lookup name with
  | some (some s) => some s
  | _ =>
      match l.environment.value? (variableOf name) with
      | some s => some (.text s)
      | none =>
          if (beginnings path).any fun b =>
            (l.environment.value? (variableOf (nameOf b))).isSome then
            none
          else
            match searchDotted path.length path l.file with
            | some s => some s
            | none => if isHidden path l.file then none else search path l.defaults

/-- Enters a setting under a path, making tables on the way. -/
def place (s : Setting) : List String → Setting.Members → Setting.Members
  | [], ms => ms
  | [key], ms => Setting.enter key s ms
  | key :: rest, ms =>
      let inner := match ms.lookup key with
        | some (.table inner) => inner
        | _ => []
      Setting.enter key (.table (place s rest inner)) ms

def merged (l : Layers) : Setting.Members :=
  (l.names.mergeSort (· ≤ ·)).foldl
    (fun ms name =>
      match l.find? name with
      | some s => place s (pathOf name) ms
      | none => ms)
    []

end Layers
end ApiPages

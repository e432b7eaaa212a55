import ApiPages.Settings.Value

/-!
# Tables under construction

A settings file fills its tables in pieces.  While that goes on a table remembers how it came about,
because only some of them may be added to.

* `Toml.put` enters a value under a dotted key;
* `Toml.openTable` and `Toml.pushTable` carry out the two kinds of headers;
* `Toml.within` works inside the table a header has opened.
-/

namespace ApiPages
namespace Toml

inductive Entry where
  | value (s : Setting)
  /-- A table: `isOpened` after a header of its own, `byDots` when a dotted key made it. -/
  | table (isOpened byDots : Bool) (members : List (String × Entry))
  /-- A list of tables, of which the last can be added to. -/
  | tables (earlier : List (List (String × Entry))) (last : List (String × Entry))

abbrev Entries := List (String × Entry)

/-! ## Finished tables -/

mutual

def Entry.toSetting : Entry → Setting
  | .value s => s
  | .table _ _ members => .table (settingsOf members)
  | .tables earlier last => .list (settingTables earlier ++ [.table (settingsOf last)])
termination_by structural e => e

def settingsOf : List (String × Entry) → Setting.Members
  | [] => []
  | (key, e) :: rest => (key, e.toSetting) :: settingsOf rest
termination_by structural es => es

def settingTables : List (List (String × Entry)) → List Setting
  | [] => []
  | es :: rest => .table (settingsOf es) :: settingTables rest
termination_by structural ts => ts

end

/-! ## Additions -/

/-- Replaces the entry of a key that is there. -/
def change (key : String) (e : Entry) (es : Entries) : Entries :=
  es.map fun old => if old.1 == key then (key, e) else old

/-- Enters a value under a dotted key, which may run through tables that no header has opened. -/
def put (s : Setting) : List String → Entries → Option Entries
  | [], _ => none
  | [key], es => if (es.lookup key).isSome then none else some (es ++ [(key, .value s)])
  | key :: rest, es =>
      match es.lookup key with
      | none => (put s rest []).map fun inner => es ++ [(key, .table false true inner)]
      | some (.table false byDots inner) =>
          (put s rest inner).map fun inner => change key (.table false byDots inner) es
      | some _ => none

/-- Carries out the end of a header below tables that are there or come about with it. -/
def descend (finish : String → Entries → Option Entries) : List String → Entries → Option Entries
  | [], _ => none
  | [key], es => finish key es
  | key :: rest, es =>
      match es.lookup key with
      | none =>
          (descend finish rest []).map fun inner => es ++ [(key, .table false false inner)]
      | some (.table isOpened byDots inner) =>
          (descend finish rest inner).map fun inner => change key (.table isOpened byDots inner) es
      | some (.tables earlier last) =>
          (descend finish rest last).map fun last => change key (.tables earlier last) es
      | some (.value _) => none

/-- Opens a table, which only a header below it may have made before. -/
def openTable : List String → Entries → Option Entries :=
  descend fun key es =>
    match es.lookup key with
    | none => some (es ++ [(key, .table true false [])])
    -- a table made by a header below it may still be opened, once
    | some (.table false false inner) => some (change key (.table true false inner) es)
    | some _ => none

/-- Starts a further table of a list of tables. -/
def pushTable : List String → Entries → Option Entries :=
  descend fun key es =>
    match es.lookup key with
    | none => some (es ++ [(key, .tables [] [])])
    | some (.tables earlier last) => some (change key (.tables (earlier ++ [last]) []) es)
    | some _ => none

/-- Works inside the table at a path. -/
def within (f : Entries → Option Entries) : List String → Entries → Option Entries
  | [], es => f es
  | key :: rest, es =>
      match es.lookup key with
      | some (.table isOpened byDots inner) =>
          (within f rest inner).map fun inner => change key (.table isOpened byDots inner) es
      | some (.tables earlier last) =>
          (within f rest last).map fun last => change key (.tables earlier last) es
      | _ => none

end Toml
end ApiPages

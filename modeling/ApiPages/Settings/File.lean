import ApiPages.Json.Reader
import ApiPages.Settings.Value
import ApiPages.Text.Case
import ApiPages.Text.Double
import ApiPages.Toml.Reader
import ApiPages.Yaml.Decode
import ApiPages.Yaml.Reader

/-!
# Settings in files

The formats of settings files for which the program has readers.

* `Setting.ofJson?`, `Setting.ofDocument?` convert values of two of them;
* `Setting.lowered` writes every key in lower case;
* `SettingsFile.read?` reads a file of a given format.
-/

namespace ApiPages
namespace Setting

/-! ## Conversion -/

mutual

/-- The value of a JSON text; a number beyond the range of double precision has none. -/
def ofJson? : Json → Option Setting
  | .null => some null
  | .bool b => some (bool b)
  | .number literal =>
      ((Decimal.ofChars? literal.toList).filter (fun d => !d.isTooLarge)).map ofDecimal
  | .string _ s => some (text s)
  | .array _ js => (ofItems? js).map list
  | .object _ ms => (ofMembers? ms).map table
termination_by structural j => j

def ofItems? : List Json → Option (List Setting)
  | [] => some []
  | j :: rest => do return (← ofJson? j) :: (← ofItems? rest)
termination_by structural js => js

def ofMembers? : List (String × Json) → Option Members
  | [] => some []
  | (key, j) :: rest => do return (key, ← ofJson? j) :: (← ofMembers? rest)
termination_by structural ms => ms

end

/-- What a scalar says. -/
def ofPlain (s : String) : Yaml.Plain → Setting
  | .null => null
  | .bool b => bool b
  | .whole n => number (toString n)
  | .decimal d => ofDecimal d
  | .infinity negative => number (if negative then "-Inf" else "+Inf")
  | .notANumber => number "NaN"
  | .instant => instant
  | .text => text s

/-- The name of a key that need not be a text. -/
def keyName (k : Yaml.Decode.Key) : String :=
  match ofPlain k.2 k.1 with
  | number spelling => spelling
  | bool b => if b then "true" else "false"
  | text s => s
  | _ => ""

mutual

/-- The value at a place of a document.  The keys of a mapping are understood as texts if all of
them are. -/
def decode (fuel : Nat) (d : Yaml.Document) (s : Yaml.Spot) : Yaml.Decode Setting :=
  match fuel with
  | 0 => Yaml.Decode.fail
  | fuel + 1 => do
      let s ← Yaml.Decode.target d s
      match s.node with
      | .scalar c =>
          let (p, content) ← Yaml.Decode.value c
          return ofPlain content p
      | .sequence items =>
          return list (← items.mapM fun n => decode fuel d { node := n, through := s.through })
      | .mapping entries =>
          return table
            (← decodeMembers fuel d (entries.all fun e => d.isTextKey e.1) s.through entries)
      | .alias .. => Yaml.Decode.fail

/-- The members of a mapping. -/
def decodeMembers (fuel : Nat) (d : Yaml.Document) (asTexts : Bool) (through : List Nat)
    (entries : List (Yaml.Node × Yaml.Node)) : Yaml.Decode Members :=
  match fuel with
  | 0 => Yaml.Decode.fail
  | fuel + 1 => do
      let (members, _) ← Yaml.Decode.members d.reach d asTexts none through entries
      members.foldlM (fun kept m => do return enter (keyName m.key) (← decode fuel d m.value) kept)
        []

end

/-- The members of the mapping that a document consists of.  An empty document has none. -/
def ofDocument? (d : Yaml.Document) : Option Members :=
  let read : Yaml.Decode Members := do
    let s ← Yaml.Decode.target d { node := d.root }
    match s.node with
    | .mapping entries => decodeMembers (2 * d.reach) d true s.through entries
    | .scalar c =>
        if (← Yaml.Decode.value c).1 == .null then return [] else Yaml.Decode.fail
    | _ => Yaml.Decode.fail
  (read.run {}).map (·.1)

/-! ## Keys -/

mutual

/-- The value with all keys in lower case, each once.  Of members with the same key the last
decides, those whose key had to be lowered after the others. -/
def lowered : Setting → Setting
  | list items => list (loweredItems items)
  | table members =>
      let ms := loweredMembers members
      let ordered := ms.filter (fun m => !m.1) ++ ms.filter (·.1)
      table (ordered.foldl (fun kept m => enter m.2.1 m.2.2 kept) [])
  | s => s
termination_by structural s => s

def loweredItems : List Setting → List Setting
  | [] => []
  | s :: rest => lowered s :: loweredItems rest
termination_by structural ss => ss

/-- The members, each with a mark that its key changed. -/
def loweredMembers : Members → List (Bool × String × Setting)
  | [] => []
  | (key, s) :: rest => (Text.lower key != key, Text.lower key, lowered s) :: loweredMembers rest
termination_by structural ms => ms

end

end Setting

/-! ## Files -/

/-- The settings in a text of the named format; formats that are not known have none. -/
def SettingsFile.read? (format text : String) : Option Setting.Members :=
  let members : Option Setting.Members :=
    if format == "toml" then Toml.parse? text
    else if format == "json" then
      ((Json.parse? text).bind Setting.ofJson?).bind fun s =>
        match s with
        | .table members => some members
        | .null => some []
        | _ => none
    else if format == "yaml" || format == "yml" then
      (Yaml.parse? text).bind Setting.ofDocument?
    else none
  members.map fun ms =>
    match (Setting.table ms).lowered with
    | .table ms => ms
    | _ => []

end ApiPages

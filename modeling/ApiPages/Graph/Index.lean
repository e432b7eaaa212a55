import ApiPages.Json.Reader
import ApiPages.Json.Record

/-!
# The index of a type graph

A type graph is a table of items by id, with a root.  The table keeps each entry as raw JSON until
it is looked up, so that a malformed entry is lost alone.

* `Index.parse?` reads an index that is the whole text, `Index.decode?` one at the beginning of it;
* `Index.lookup?` decodes an entry;
* `Item.kind?` is the first recognised kind of an item, `Item.payload?` what it holds under a kind.
-/

namespace ApiPages

/-- Item ids are texts; numeric ids keep their spelling. -/
abbrev ItemId := String

structure Index where
  root : ItemId := ""
  crateVersion : Option String := none
  items : List (ItemId × Json) := []
  /-- Summaries of items, including those of other crates. -/
  paths : List (ItemId × Json) := []
  externalCrates : List (String × Json) := []
  formatVersion : Int := 0
  /-- Whether a list of ids is read on behind a malformed one when its items are kept all the same.
  Decoders of JSON differ: some end the list there, others report the fault once the list is read.
  What is said of type graphs holds for both. -/
  readsOn : Bool := true

/-! ## Reading an index -/

namespace Index

def put (idx : Index) (key : String) (v : Json) : Option Index :=
  if Json.names key "root" then (Json.identifier? v).map fun root => { idx with root }
  else if Json.names key "crate_version" then
    (Json.Field.optionalText v).map fun crateVersion => { idx with crateVersion }
  else if Json.names key "index" then
    (Json.Field.table idx.items v).map fun items => { idx with items }
  else if Json.names key "paths" then
    (Json.Field.table idx.paths v).map fun paths => { idx with paths }
  else if Json.names key "external_crates" then
    (Json.Field.table idx.externalCrates v).map fun externalCrates => { idx with externalCrates }
  else if Json.names key "format_version" then
    (Json.Field.whole idx.formatVersion v).map fun formatVersion => { idx with formatVersion }
  else some idx

def ofJson? (j : Json) : Option Index :=
  Json.record {} put j

/-- Reads an index that is the whole text. -/
def parse? (text : String) : Option Index :=
  (Json.parse? text).bind ofJson?

/-- Reads an index at the beginning of a text. -/
def decode? (text : String) : Option Index :=
  (Json.parsePrefix? text).bind ofJson?

end Index

/-! ## Items -/

/-- The kinds of items that are documented. -/
inductive Kind where
  | module
  | struct
  | enum
  | trait
  | function
  | constant
  | typeAlias
  | typedef
  deriving DecidableEq, Repr

namespace Kind

/-- The key under which an item of the kind keeps its payload. -/
def key : Kind → String
  | module => "module"
  | struct => "struct"
  | enum => "enum"
  | trait => "trait"
  | function => "function"
  | constant => "constant"
  | typeAlias => "type_alias"
  | typedef => "typedef"

/-- All kinds; the first one whose key an item has decides. -/
def all : List Kind :=
  [module, struct, enum, trait, function, constant, typeAlias, typedef]

end Kind

structure Item where
  id : ItemId := ""
  crateId : Int := 0
  name? : Option String := none
  docs? : Option String := none
  /-- Link texts of the documentation with the items they mean. -/
  links : List (String × ItemId) := []
  inner : Option Json := none

namespace Item

def name (it : Item) : String := it.name?.getD ""

def docs (it : Item) : String := it.docs?.getD ""

/-- Enters a link text; an earlier entry for it is dropped. -/
def enter (links : List (String × ItemId)) (text : String) (id : ItemId) : List (String × ItemId) :=
  links.filter (·.1 != text) ++ [(text, id)]

/-- A table of ids, put on top of the one already there. -/
def putLinks (old : List (String × ItemId)) (v : Json) : Option (List (String × ItemId)) := do
  let members ← Json.Field.table [] v
  if v.isObject then
    members.foldlM (fun links (text, id) => (Json.identifier? id).map (enter links text)) old
  else some []

def put (it : Item) (key : String) (v : Json) : Option Item :=
  if Json.names key "id" then (Json.identifier? v).map fun id => { it with id }
  else if Json.names key "crate_id" then
    (Json.Field.whole it.crateId v).map fun crateId => { it with crateId }
  else if Json.names key "name" then
    (Json.Field.optionalText v).map fun name => { it with name? := name }
  else if Json.names key "docs" then
    (Json.Field.optionalText v).map fun docs => { it with docs? := docs }
  else if Json.names key "links" then (putLinks it.links v).map fun links => { it with links }
  else if Json.names key "inner" then some { it with inner := some v }
  else some it

def ofJson? (j : Json) : Option Item :=
  Json.record {} put j

/-- What the item holds under a kind's key. -/
def payload? (it : Item) (key : String) : Option Json :=
  it.inner.bind (·.get? key)

/-- The first recognised kind of the item. -/
def kind? (it : Item) : Option Kind :=
  Kind.all.find? fun k => (it.payload? k.key).isSome

end Item

namespace Index

/-- The item with the given id, unless it is missing or malformed. -/
def lookup? (idx : Index) (id : ItemId) : Option Item :=
  (Json.lookup id idx.items).bind Item.ofJson?

/-- The recognised kind of the item with the given id. -/
def kind? (idx : Index) (id : ItemId) : Option Kind :=
  (idx.lookup? id).bind Item.kind?

end Index

/-! ## Other crates -/

/-- The path and kind under which an item is published. -/
structure Summary where
  crateId : Int := 0
  path : List String := []
  kind : String := ""
  deriving DecidableEq, Repr

namespace Summary

def put (s : Summary) (key : String) (v : Json) : Option Summary :=
  if Json.names key "crate_id" then
    (Json.Field.whole s.crateId v).map fun crateId => { s with crateId }
  else if Json.names key "path" then (Json.Field.texts v).map fun path => { s with path }
  else if Json.names key "kind" then (Json.Field.text s.kind v).map fun kind => { s with kind }
  else some s

end Summary

structure ExternalCrate where
  name : String := ""
  htmlRoot : String := ""
  deriving DecidableEq, Repr

namespace ExternalCrate

def put (c : ExternalCrate) (key : String) (v : Json) : Option ExternalCrate :=
  if Json.names key "name" then (Json.Field.text c.name v).map fun name => { c with name }
  else if Json.names key "html_root_url" then
    (Json.Field.text c.htmlRoot v).map fun htmlRoot => { c with htmlRoot }
  else some c

end ExternalCrate

namespace Index

def summary? (idx : Index) (id : ItemId) : Option Summary :=
  (Json.lookup id idx.paths).bind (Json.record {} Summary.put)

def externalCrate? (idx : Index) (crate : String) : Option ExternalCrate :=
  (Json.lookup crate idx.externalCrates).bind (Json.record {} ExternalCrate.put)

end Index
end ApiPages

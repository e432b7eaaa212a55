import ApiPages.Graph.Index
import ApiPages.TypeExpr.Decode

/-!
# Entries of a module

An item listed by a module becomes an `Entry`: its name, documentation and what its kind adds.  Ids
inside an item refer to other items; those that cannot be looked up contribute nothing.

* `Item.memberIds` are the ids an item refers to: fields, variants or trait members;
* `Index.entryOf?` reads the entry of a listed id;
* `Index.missing` are the ids that are listed, or referred to by a listed item, and cannot be looked
  up.
-/

namespace ApiPages

/-! ## Entries -/

structure TypedName where
  name : String
  type : TypeExpr

/-- What an entry says beyond its name and documentation. -/
inductive Detail where
  | module
  | struct (fields : List TypedName)
  | enum (variants : List String)
  | trait (members : List String)
  | function (params : List TypedName) (output : TypeExpr)
  | constant (type : TypeExpr) (expression : String)
  | alias (type : TypeExpr)

structure Entry where
  id : ItemId
  name : String
  docs : String
  links : List (String × ItemId)
  detail : Detail

/-! ## Lists of ids -/

namespace Item

/-- A list of ids; one that is malformed spoils the list. -/
def ids? : Json → Option (List ItemId)
  | .array _ js => js.mapM Json.identifier?
  | .null => some []
  | _ => none

/-- A list of ids in which `null` stands for an entry left out. -/
def optionalIds? : Json → Option (List ItemId)
  | .array _ js => (js.filter (fun j => !j matches .null)).mapM Json.identifier?
  | .null => some []
  | _ => none

/-- The ids of an object under one key; an object without the key has none. -/
def idsUnder? (key : String) (j : Json) : Option (List ItemId) :=
  Json.record [] (fun ids k v => if Json.names k key then ids? v else some ids) j

def optionalIdsUnder? (key : String) (j : Json) : Option (List ItemId) :=
  Json.record [] (fun ids k v => if Json.names k key then optionalIds? v else some ids) j

/-- The ids of a tuple's fields, where `null` stands for a field left out.  A malformed id counts as
the empty id; it may also be the last one that is kept. -/
def tupleFields (readsOn : Bool) : List Json → List ItemId
  | [] => []
  | .null :: rest => tupleFields readsOn rest
  | j :: rest =>
      match Json.identifier? j with
      | some id => id :: tupleFields readsOn rest
      | none => "" :: (if readsOn then tupleFields readsOn rest else [])

example : tupleFields true [.number "1", .null, .bool true, .string "" "9"] = ["1", "", "9"] ∧
    tupleFields false [.number "1", .null, .bool true, .string "" "9"] = ["1", ""] := by
  decide

/-- The fields of a struct with named fields: a list, or an object that holds one. -/
def plainFields (j : Json) : List ItemId :=
  ((optionalIds? j).or (optionalIdsUnder? "fields" j)).getD []

structure StructShape where
  kind : Option Json := none
  fields : List ItemId := []

def StructShape.put (s : StructShape) (key : String) (v : Json) : Option StructShape :=
  if Json.names key "kind" then some { s with kind := some v }
  else if Json.names key "fields" then (optionalIds? v).map fun fields => { s with fields }
  else some s

/-- The fields of a struct.  The kind holds them, or else the struct itself. -/
def structFields (readsOn : Bool) (j : Json) : List ItemId :=
  match Json.record {} StructShape.put j with
  | none => []
  | some shape =>
      match shape.kind with
      | some (.object _ members) =>
          match Json.lookup "plain" members, Json.lookup "tuple" members with
          | some plain, _ => plainFields plain
          | none, some (.array _ js) => tupleFields readsOn js
          | none, _ => []
      -- a struct without fields
      | some .null => []
      | _ => shape.fields

/-- The ids a module lists. -/
def listedIds (it : Item) : List ItemId :=
  ((it.payload? "module").bind (idsUnder? "items")).getD []

/-- The ids an item of a kind refers to. -/
def memberIds (readsOn : Bool) (it : Item) (k : Kind) : List ItemId :=
  match k with
  | .struct => ((it.payload? "struct").map (structFields readsOn)).getD []
  | .enum => ((it.payload? "enum").bind (idsUnder? "variants")).getD []
  | .trait => ((it.payload? "trait").bind (idsUnder? "items")).getD []
  | _ => []

/-! ## Types inside items -/

structure ConstantShape where
  type : Option Json := none
  expression : String := ""
  inner : Option String := none

def ConstantShape.put (c : ConstantShape) (key : String) (v : Json) : Option ConstantShape :=
  if Json.names key "type" then some { c with type := some v }
  else if Json.names key "expr" then
    (Json.Field.text c.expression v).map fun expression => { c with expression }
  else if Json.names key "const" then
    (Json.optionalRecord "" (fun e k v =>
      if Json.names k "expr" then Json.Field.text e v else some e) c.inner v).map fun inner =>
        { c with inner }
  else some c

/-- A constant's type and value; the value in its inner part is preferred. -/
def constantDetail (it : Item) : Detail :=
  match (it.payload? "constant").bind (Json.record {} ConstantShape.put) with
  | none => .constant .absent ""
  | some c =>
      let inner := c.inner.getD ""
      .constant (TypeExpr.ofOptional c.type) (if inner.isEmpty then c.expression else inner)

def typeUnder? (j : Json) : Option (Option Json) :=
  Json.record none (fun t k v => if Json.names k "type" then some (some v) else some t) j

def aliasDetail (it : Item) (k : Kind) : Detail :=
  match (it.payload? k.key).bind typeUnder? with
  | none => .alias .absent
  | some t => .alias (TypeExpr.ofOptional t)

def functionDetail (it : Item) : Detail :=
  match TypeExpr.signature? (it.payload? "function") with
  | none => .function [] .absent
  | some s =>
      .function
        ((s.inputs.getD []).map fun j => let (name, type) := TypeExpr.inputOfJson j; { name, type })
        (TypeExpr.ofOptional s.output)

end Item

/-! ## Reading entries -/

namespace Index

/-- The items an item refers to, without those that cannot be looked up. -/
def members (idx : Index) (it : Item) (k : Kind) : List Item :=
  (it.memberIds idx.readsOn k).filterMap idx.lookup?

def detail (idx : Index) (it : Item) (k : Kind) : Detail :=
  match k with
  | .module => .module
  | .struct =>
      .struct ((idx.members it k).map fun f =>
        { name := f.name, type := TypeExpr.ofOptional (f.payload? "struct_field") })
  | .enum => .enum ((idx.members it k).map Item.name)
  | .trait => .trait ((idx.members it k).map Item.name)
  | .function => it.functionDetail
  | .constant => it.constantDetail
  | .typeAlias | .typedef => it.aliasDetail k

/-- The entry of a listed id, unless its item is missing, malformed or of no recognised kind. -/
def entryOf? (idx : Index) (id : ItemId) : Option Entry := do
  let it ← idx.lookup? id
  let k ← it.kind?
  return { id, name := it.name, docs := it.docs, links := it.links, detail := idx.detail it k }

/-- The ids that are missing when a listed id is read, in the order they are asked for. -/
def missing (idx : Index) (id : ItemId) : List ItemId :=
  match idx.lookup? id with
  | none => [id]
  | some it =>
      match it.kind? with
      | none => []
      | some k => (it.memberIds idx.readsOn k).filter fun m => (idx.lookup? m).isNone

end Index
end ApiPages

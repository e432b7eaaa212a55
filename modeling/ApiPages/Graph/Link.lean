import ApiPages.Graph.Tree
import ApiPages.Text.Search

/-!
# Where links lead

A link in the documentation names an item.  An item documented in the tree is found on the page of
its module; an item of another crate on that crate's published pages.

* `Tree.owner?` finds the module and name under which an id is documented;
* `Index.externalUrl?` builds the address of an item of another crate;
* `Tree.resolve?` puts the two together.
-/

namespace ApiPages

inductive LinkTarget where
  /-- A module's page, or an item on it when the name is not empty. -/
  | internal (module : ItemId) (item : String)
  | external (url : String)
  deriving DecidableEq, Repr

/-! ## Inside the tree -/

/-- The ids documented by a module: its own, and those of its entries other than modules. -/
def Module.owned (m : Module) : List (ItemId × LinkTarget) :=
  (m.entries.filterMap fun e =>
    match e.detail with
    | .module => none
    | _ => some (e.id, .internal m.id e.name)) ++ [(m.id, .internal m.id "")]

namespace Tree

/-- Where an id is documented; the last of several places counts. -/
def owner? (t : Tree) (id : ItemId) : Option LinkTarget :=
  (t.modules.flatMap Module.owned).reverse.lookup id

end Tree

/-! ## Other crates -/

/-- The beginning of the page name of an item kind. -/
def Summary.pagePrefix? (kind : String) : Option String :=
  [("struct", "struct"), ("enum", "enum"), ("union", "union"), ("trait", "trait"),
    ("function", "fn"), ("type_alias", "type"), ("typedef", "type"), ("constant", "constant"),
    ("static", "static"), ("macro", "macro"), ("primitive", "primitive")].lookup kind

namespace Index

/-- The address below which a crate's pages stand.  A crate that names none is published under its
own name. -/
def externalRoot? (idx : Index) (crateId : Int) : Option String := do
  let crate ← idx.externalCrate? (toString crateId)
  if !crate.htmlRoot.isEmpty then some (Text.cutSuffix crate.htmlRoot "/" ++ "/")
  else if crate.name.isEmpty then none
  else some ("https://docs.rs/" ++ Text.replaced crate.name "_" "-" ++ "/latest/")

def externalUrl? (idx : Index) (s : Summary) : Option String := do
  let last ← s.path.getLast?
  let root ← idx.externalRoot? s.crateId
  if s.kind == "module" then some (root ++ Text.joined "/" s.path ++ "/index.html")
  else
    let page ← Summary.pagePrefix? s.kind
    some (root ++ Text.joined "/" s.path.dropLast ++ "/" ++ page ++ "." ++ last ++ ".html")

end Index

namespace Tree

/-- Where a link to an id leads, if anywhere. -/
def resolve? (t : Tree) (id : ItemId) : Option LinkTarget :=
  match t.owner? id with
  | some target => some target
  | none => do
      let s ← t.index.summary? id
      -- an item of the crate itself that has no page is linked nowhere
      if s.crateId == 0 then none else (t.index.externalUrl? s).map .external

end Tree
end ApiPages

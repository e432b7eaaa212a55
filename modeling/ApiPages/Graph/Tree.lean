import ApiPages.Graph.Entry

/-!
# The module tree

The modules reachable from a root, each with the entries it lists.  The graph may have cycles and
may name one module in several places; a module is taken where it is met first, breadth first.

* `Walk.step` takes one module off the queue, `Walk.run` all of them;
* `Tree.ofIndex` is the tree of an index, or the reason why it has none.

A walk ends because each step takes a module that was never taken before, and an index has no more
modules than entries.
-/

namespace ApiPages

/-- How the root of a tree is presented. -/
inductive Mode where
  | library
  | executable
  deriving DecidableEq, Repr

/-- A module with the entries it lists.  The path leads from the root to the module itself. -/
structure Module where
  id : ItemId
  name : String
  path : List String
  docs : String
  links : List (String × ItemId)
  isRoot : Bool
  entries : List Entry

namespace Module

def ancestors (m : Module) : List String :=
  m.path.dropLast

/-- The ids of the modules that the module lists. -/
def submodules (m : Module) : List ItemId :=
  m.entries.filterMap fun e =>
    match e.detail with
    | .module => some e.id
    | _ => none

end Module

/-! ## Reading a module -/

namespace Index

/-- The module with the given id below a path. -/
def moduleAt (idx : Index) (id : ItemId) (it : Item) (above : List String) (isRoot : Bool) :
    Module :=
  { id, name := it.name, path := above ++ [it.name], docs := it.docs, links := it.links, isRoot
    entries := it.listedIds.filterMap idx.entryOf? }

end Index

/-! ## The walk -/

structure Walk where
  /-- Modules waiting to be read, with the path above them. -/
  queue : List (ItemId × List String)
  visited : List ItemId
  modules : List Module := []
  /-- Ids asked for in vain, with repetitions. -/
  missing : List ItemId := []

namespace Walk

/-- Adds the modules not met before to the queue. -/
def enqueue (w : Walk) (path : List String) (ids : List ItemId) : Walk :=
  ids.foldl (fun w id =>
    if w.visited.contains id then w
    else { w with queue := w.queue ++ [(id, path)], visited := w.visited ++ [id] }) w

/-- Reads the first module of the queue.  A module without entries is left out, unless it is the
root. -/
def step (idx : Index) (root : ItemId) (w : Walk) : Walk :=
  match w.queue with
  | [] => w
  | (id, above) :: queue =>
      let w := { w with queue }
      match idx.lookup? id with
      | none => w
      | some it =>
          let m := idx.moduleAt id it above (id == root)
          -- what a module asks for in vain counts even if the module is left out
          let w := { w with missing := w.missing ++ it.listedIds.flatMap idx.missing }
          if m.entries.isEmpty && !m.isRoot then w
          else { w with modules := w.modules ++ [m] }.enqueue m.path m.submodules

/-- Reads modules until the queue is empty, at most `fuel` of them. -/
def run (idx : Index) (root : ItemId) : Nat → Walk → Walk
  | 0, w => w
  | fuel + 1, w => if w.queue.isEmpty then w else run idx root fuel (w.step idx root)

/-- The walk from a root. -/
def ofRoot (idx : Index) (root : ItemId) : Walk :=
  run idx root (idx.items.length + 1) { queue := [(root, [])], visited := [root] }

end Walk

/-! ## Trees -/

structure Tree where
  mode : Mode
  index : Index
  /-- The modules, breadth first with the root first. -/
  modules : List Module
  /-- The ids that are referred to and cannot be looked up, each once. -/
  dangling : List ItemId

/-- Why an index has no tree. -/
inductive TreeError where
  | missingRoot (id : ItemId)
  | rootNotModule (id : ItemId)
  deriving DecidableEq, Repr

def TreeError.message : TreeError → String
  | missingRoot id => "root item not found in index: " ++ id
  | rootNotModule id => "root item is not a module: " ++ id

namespace Tree

/-- The elements of a list, each where it occurs first. -/
def firsts (ids : List ItemId) : List ItemId :=
  ids.foldl (fun seen id => if seen.contains id then seen else seen ++ [id]) []

/-- The tree below a root; the empty id means the index's own root. -/
def ofIndex (idx : Index) (mode : Mode) (root : ItemId) : Except TreeError Tree :=
  let root := if root.isEmpty then idx.root else root
  match idx.lookup? root with
  | none => .error (.missingRoot root)
  | some it =>
      if it.kind? == some .module then
        let w := Walk.ofRoot idx root
        .ok { mode, index := idx, modules := w.modules, dangling := firsts w.missing }
      else .error (.rootNotModule root)

def root? (t : Tree) : Option Module :=
  t.modules.find? (·.isRoot)

/-- Whether the root lists nothing. -/
def isEmpty (t : Tree) : Bool :=
  match t.root? with
  | some m => m.entries.isEmpty
  | none => true

end Tree
end ApiPages

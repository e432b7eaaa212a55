import ApiPages.Yaml.Node

/-!
# Understanding documents

A document is understood from its root on.  Where a name stands, the node is understood that has it;
it must not be met again below itself.  A mapping can take over the entries of other mappings for
keys that it does not have.

* `Decode` counts what is understood, and gives up where names make a document too large;
* `Decode.target` finds the node that stands at a place, `Decode.text` its text;
* `Decode.members` are the entries of a mapping with those it takes over.
-/

namespace ApiPages
namespace Yaml

/-- How much has been understood. -/
structure Effort where
  nodes : Nat := 0
  /-- Those of the nodes that stand under a name. -/
  borrowed : Nat := 0

namespace Effort

/-- Whether too much of a document is borrowed.  In small documents nearly everything may be
borrowed, in large ones a tenth. -/
def isExcessive (e : Effort) : Bool :=
  let few := 400000
  let many := 4000000
  let isAbove (share : Nat) : Bool := share * e.nodes < e.borrowed * (100 * (many - few))
  100 < e.borrowed && 1000 < e.nodes &&
    (if e.nodes ≤ few then isAbove (99 * (many - few))
      else if many ≤ e.nodes then isAbove (10 * (many - few))
      else isAbove (99 * (many - few) - 89 * (e.nodes - few)))

end Effort

abbrev Decode := StateT Effort Option

/-- A node with the places of the names that led to it. -/
structure Spot where
  node : Node
  through : List Nat := []

namespace Decode

def fail {α : Type} : Decode α := fun _ => none

/-- Counts one node. -/
def count (through : List Nat) : Decode Unit := do
  let e : Effort ← get
  let e : Effort :=
    { nodes := e.nodes + 1, borrowed := e.borrowed + (if through.isEmpty then 0 else 1) }
  if e.isExcessive then fail else set e

/-- The node that stands at a place. -/
def target (d : Document) (s : Spot) : Decode Spot := do
  count s.through
  match s.node with
  | .alias _ place number =>
      if s.through.contains place then fail
      else
        match d.target? number with
        | some node =>
            let s : Spot := { node, through := place :: s.through }
            count s.through
            return s
        | none => fail
  | _ => return s

/-! ## Scalars and keys -/

/-- What a key stands for; only a text has a spelling that matters. -/
abbrev Key := Plain × String

/-- What a scalar stands for. -/
def value (c : Content) : Decode (Plain × String) := fun e => c.value?.map fun v => (v, e)

/-- The key as what it stands for. -/
def key (d : Document) (s : Spot) : Decode Key := do
  match (← target d s).node with
  | .scalar c =>
      let (p, text) ← value c
      return (p, if p == .text then text else "")
  | _ => fail

/-- The text of a scalar, whatever it stands for; a scalar that stands for nothing has none. -/
def text (d : Document) (s : Spot) : Decode (Option String) := do
  match (← target d s).node with
  | .scalar c =>
      let (p, text) ← value c
      return if p == .null then none else some text
  | _ => fail

/-! ## Members -/

/-- An entry of a mapping: the key, the value, and whether another mapping lends it. -/
structure Member where
  key : Key
  value : Spot
  isLent : Bool

/-- The entries of a mapping apart from those that ask for other mappings, and what these ask
for. -/
def ownEntries (entries : List (Node × Node)) : List (Node × Node) × Option Node :=
  let isMerge : Node → Bool
    | .scalar c => c.isMerge
    | _ => false
  (entries.filter fun e => !isMerge e.1, (entries.find? fun e => isMerge e.1).map (·.2))

/-- The mappings that a node asks for: one, or several in a row. -/
def lenders (d : Document) (n : Node) : Decode (List Node) := do
  let isMapping : Node → Bool
    | .mapping _ => true
    | .alias _ _ number =>
        match d.target? number with
        | some (.mapping _) => true
        | _ => false
    | _ => false
  match n with
  | .sequence items => if items.all isMapping then return items else fail
  | n => if isMapping n then return [n] else fail

/-- How the keys of a mapping are understood: as texts, or each as what it stands for. -/
def readKey (d : Document) (asTexts : Bool) (s : Spot) : Decode (Option Key) := do
  if asTexts then return (← text d s).map fun t => (.text, t)
  else return some (← key d s)

/-- The entries of a mapping that has been met, followed by those it takes over.  `taken` are the
keys that are no longer taken over, if the mapping lends its entries. -/
def members (fuel : Nat) (d : Document) (asTexts : Bool)
    (taken : Option (List Key)) (through : List Nat) (entries : List (Node × Node)) :
    Decode (List Member × List Key) :=
  match fuel with
  | 0 => fail
  | fuel + 1 => do
      if !Document.hasUniqueKeys entries then fail
      else
        let (own, asked) := ownEntries entries
        let mut found : List Member := []
        let mut taken' := taken.getD []
        for (k, v) in own do
          if let some key ← readKey d asTexts { node := k, through } then
            if taken.isNone || !taken'.contains key then
              found := { key, value := { node := v, through }, isLent := taken.isSome } :: found
            if taken.isSome then taken' := key :: taken'
        match asked with
        | none => return (found.reverse, taken')
        | some asked =>
            -- what the mapping has itself, and what an earlier lender has, is not lent to it again
            if taken.isNone then
              for (k, _) in entries do
                taken' := (← key d { node := k, through }) :: taken'
            let mut lent : List Member := []
            for n in ← lenders d asked do
              let s ← target d { node := n, through }
              match s.node with
              | .mapping es =>
                  let (ms, t) ← members fuel d asTexts (some taken') s.through es
                  lent := lent ++ ms
                  taken' := t
              | _ => fail
            return (found.reverse ++ lent, taken')

end Decode
end Yaml
end ApiPages

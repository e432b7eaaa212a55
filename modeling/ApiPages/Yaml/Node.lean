import ApiPages.Text.Base64
import ApiPages.Yaml.Scalar

/-!
# Document trees

A document is a tree in which a node can be given a name, under which it can stand in other places
as well.

* `Node` is a node, `Document` a tree with its named nodes;
* `Content.value?` is what a scalar stands for, by its tag or by its looks.
-/

namespace ApiPages
namespace Yaml

/-! ## Scalars -/

/-- The text of a scalar with what decides how it is understood. -/
structure Content where
  text : String
  /-- It is unquoted, so that it can stand for something else than its text. -/
  isPlain : Bool := false
  /-- The tag that is written before it, in its short form. -/
  tag? : Option String := none
  deriving DecidableEq, Repr

namespace Content

/-- A scalar that is not written. -/
def empty : Content := { text := "", isPlain := true }

/-- The value of a scalar whose tag says what it should look like.  A whole number can serve as a
decimal one. -/
def tagged? (text tag : String) : Option Plain :=
  if tag == "!!str" || (tag == "!!merge" && text == "<<") then some .text
  else
    let p := looks (tag == "!!timestamp") text
    if p.tag == tag then some p
    else
      match p with
      | .whole n =>
          if tag == "!!float" && n < 0x8000000000000000 then
            some (.decimal { negative := n < 0, digits := n.natAbs })
          else none
      | _ => none

/-- What a scalar stands for and, if that is a text, which one. -/
def value? (c : Content) : Option (Plain × String) :=
  match c.tag? with
  | none => some (if c.isPlain then resolve c.text else .text, c.text)
  | some "!!binary" => (Base64.decode? c.text).map fun text => (.text, text)
  | some tag => (tagged? c.text tag).map fun p => (p, c.text)

/-- The short tag of a scalar. -/
def shortTag (c : Content) : String :=
  c.tag?.getD (if c.isPlain then (if c.text == "<<" then "!!merge" else (resolve c.text).tag)
    else "!!str")

/-- Whether a scalar, as a key, asks for the entries of other mappings. -/
def isMerge (c : Content) : Bool :=
  c.text == "<<" && (c.tag?.getD (if c.isPlain then "!!merge" else "!!str")) == "!!merge"

end Content

/-! ## Nodes -/

inductive Node where
  | scalar (c : Content)
  | sequence (items : List Node)
  | mapping (entries : List (Node × Node))
  /-- A node that stands under its name.  `place` tells the places apart where names stand. -/
  | alias (name : String) (place : Nat) (target : Nat)
  deriving Repr

structure Document where
  root : Node
  /-- The nodes that have names, by number. -/
  named : List (Nat × Node) := []
  /-- The number of characters it was read from. -/
  size : Nat := 0

namespace Document

/-- No way through a document is longer: it passes each place of a name once, and each node once
between two such places. -/
def reach (d : Document) : Nat := (d.size + 1) * (8 * d.size + 64)

def target? (d : Document) (n : Nat) : Option Node := d.named.lookup n

/-- Whether two keys of a mapping are the same: only scalars and names have a text to tell them
apart. -/
def sameKey : Node → Node → Bool
  | .scalar a, .scalar b => a.text == b.text
  | .sequence _, .sequence _ => true
  | .mapping _, .mapping _ => true
  | .alias a _ _, .alias b _ _ => a == b
  | _, _ => false

/-- Whether a key stands for a text. -/
def isTextKey (d : Document) (n : Node) : Bool :=
  let isText : Node → Bool
    | .scalar c => c.shortTag == "!!str" || c.shortTag == "!!merge"
    | _ => false
  match n with
  | .alias _ _ number => (d.target? number).any isText
  | n => isText n

/-- Whether no key of a mapping comes twice. -/
def hasUniqueKeys : List (Node × Node) → Bool
  | [] => true
  | e :: rest => !(rest.any fun f => sameKey e.1 f.1) && hasUniqueKeys rest

end Document
end Yaml
end ApiPages

import ApiPages.Yaml.Node
import ApiPages.Yaml.Scanner

/-!
# Reading documents

The first document of a text is read token by token.  What follows its root node is not looked at,
apart from the next token, which must be one.

* `Reading` is how far a document has been read;
* `Read.node` reads a node, and with it the collections below it;
* `Yaml.parse?` reads the first document of a text.
-/

namespace ApiPages
namespace Yaml

/-- How far a document has been read. -/
structure Reading where
  scanner : Scanner
  /-- What the handles of tags stand for. -/
  handles : List (String × String) := []
  /-- The number of the node that a name was given to last. -/
  names : List (String × Nat) := []
  /-- The named nodes that have been read, by number. -/
  named : List (Nat × Node) := []
  nameCount : Nat := 0
  /-- The number of places where names have stood for nodes. -/
  places : Nat := 0

abbrev Read := StateT Reading Option

namespace Read

/-- The next token. -/
def peek : Read Token := do
  let r ← get
  let (t, scanner) ← r.scanner.peek?
  set { r with scanner }
  return t

/-- Passes the next token. -/
def pass : Read Unit :=
  modify fun r => { r with scanner := r.scanner.drop }

/-- Passes the next token and gives the one after it. -/
def passed : Read Token := do
  pass
  peek

def fail {α : Type} : Read α := fun _ => none

/-! ## What stands before a node -/

/-- What is said of a node before it comes. -/
structure Properties where
  anchor? : Option String := none
  tag? : Option String := none

/-- The tag that a handle and a suffix stand for.  A handle has to be known. -/
def fullTag (handle suffix : String) : Read String := do
  if handle.isEmpty then return suffix
  else
    match (← get).handles.lookup handle with
    | some start => return start ++ suffix
    | none => fail

/-- An anchor and a tag in either order, and the token after them. -/
def properties : Read (Properties × Token) := do
  match ← peek with
  | .anchor name =>
      match ← passed with
      | .tag handle suffix =>
          let next ← passed
          return ({ anchor? := some name, tag? := some (← fullTag handle suffix) }, next)
      | next => return ({ anchor? := some name }, next)
  | .tag handle suffix =>
      match ← passed with
      | .anchor name =>
          let next ← passed
          return ({ anchor? := some name, tag? := some (← fullTag handle suffix) }, next)
      | next => return ({ tag? := some (← fullTag handle suffix) }, next)
  | next => return ({}, next)

/-- The start of the tags that the format defines. -/
def tagStart : String := "tag:yaml.org,2002:"

/-- The short form of a tag; the tag that is only a mark says nothing. -/
def shortTag? (tag : String) : Option String :=
  if tag.isEmpty || tag == "!" then none
  else
    match tagStart.toList.isPrefixOf? tag.toList with
    | some rest => some ("!!" ++ String.ofList rest)
    | none => some tag

/-! ## Names -/

/-- Gives a name to the node that is about to be read. -/
def declare (name : String) : Read Nat := do
  let r ← get
  set { r with names := (name, r.nameCount) :: r.names, nameCount := r.nameCount + 1 }
  return r.nameCount

/-- Reads a node that has a name, or one that has none. -/
def naming (anchor? : Option String) (read : Read Node) : Read Node := do
  match anchor? with
  | none => read
  | some name =>
      let number ← declare name
      let n ← read
      modify fun r => { r with named := (number, n) :: r.named }
      return n

/-- The node that stands under a name. -/
def reference (name : String) : Read Node := do
  let r ← get
  match r.names.lookup name with
  | none => fail
  | some target =>
      set { r with places := r.places + 1 }
      return .alias name r.places target

/-! ## Nodes -/

/-- A node that is not written. -/
def emptyNode : Node := .scalar Content.empty

/-- Tokens that follow the key or the value of a block mapping. -/
def endsBlockPart : Token → Bool
  | .key | .value | .blockEnd => true
  | _ => false

def endsItem : Token → Bool
  | .blockEntry | .blockEnd => true
  | _ => false

def endsFlowPart (isMapping : Bool) : Token → Bool
  | .flowEntry => true
  | .flowSequenceEnd => !isMapping
  | .flowMappingEnd => isMapping
  | _ => false

mutual

/-- Reads a node.  `isBlock` lets it be a block collection, `isLoose` lets the items of a sequence
stand where a node without indentation can stand. -/
def node (fuel : Nat) (isBlock isLoose : Bool) : Read Node :=
  match fuel with
  | 0 => fail
  | fuel + 1 => do
      if let .alias name := ← peek then
        pass
        reference name
      else
        let (given, next) ← properties
        let tag? := given.tag?.bind shortTag?
        let isGiven := given.anchor?.isSome || given.tag?.any (!·.isEmpty)
        let scalar (c : Content) : Read Node := naming given.anchor? (pure (.scalar c))
        let inside (isCollection : Bool) (read : Read Node) : Read Node :=
          if isCollection then do
            pass
            naming given.anchor? read
          -- an anchor or a tag may stand for a node that is left out
          else if isGiven then scalar { Content.empty with tag? }
          else fail
        match next with
        | .blockEntry =>
            -- below a key the items may stand in the column of the key, where no block begins
            if isLoose then naming given.anchor? (looseItems fuel [])
            else inside false fail
        | .scalar isPlain text =>
            pass
            scalar { text, isPlain, tag? }
        | .flowSequenceStart => inside true (flowItems fuel true [])
        | .flowMappingStart => inside true (flowEntries fuel true [])
        | .blockSequenceStart => inside isBlock (blockItems fuel [])
        | .blockMappingStart => inside isBlock (blockEntries fuel [])
        | _ => inside false fail

/-- The items of a block sequence. -/
def blockItems (fuel : Nat) (acc : List Node) : Read Node :=
  match fuel with
  | 0 => fail
  | fuel + 1 => do
      match ← peek with
      | .blockEntry =>
          if endsItem (← passed) then blockItems fuel (emptyNode :: acc)
          else blockItems fuel ((← node fuel true false) :: acc)
      | .blockEnd =>
          pass
          return .sequence acc.reverse
      | _ => fail

/-- The items of a sequence that is not indented, which ends with the first token of another
kind. -/
def looseItems (fuel : Nat) (acc : List Node) : Read Node :=
  match fuel with
  | 0 => fail
  | fuel + 1 => do
      match ← peek with
      | .blockEntry =>
          let next ← passed
          if endsItem next || endsBlockPart next then looseItems fuel (emptyNode :: acc)
          else looseItems fuel ((← node fuel true false) :: acc)
      | _ => return .sequence acc.reverse

/-- The key or the value of a block mapping, which may be missing. -/
def blockPart (fuel : Nat) : Read Node :=
  match fuel with
  | 0 => fail
  | fuel + 1 => do
      if endsBlockPart (← peek) then return emptyNode
      else node fuel true true

/-- The entries of a block mapping. -/
def blockEntries (fuel : Nat) (acc : List (Node × Node)) : Read Node :=
  match fuel with
  | 0 => fail
  | fuel + 1 => do
      match ← peek with
      | .key =>
          pass
          let key ← blockPart fuel
          if (← peek) == .value then
            pass
            let value ← blockPart fuel
            blockEntries fuel ((key, value) :: acc)
          else blockEntries fuel ((key, emptyNode) :: acc)
      | .blockEnd =>
          pass
          return .mapping acc.reverse
      | _ => fail

/-- The value in a flow collection, if there is one. -/
def flowValue (fuel : Nat) (isMapping : Bool) : Read Node :=
  match fuel with
  | 0 => fail
  | fuel + 1 => do
      if (← peek) == .value then
        if endsFlowPart isMapping (← passed) then return emptyNode
        else node fuel false false
      else return emptyNode

/-- An entry that is an item of a flow sequence, after its mark.  With an empty key goes the token
after it. -/
def flowPair (fuel : Nat) : Read Node :=
  match fuel with
  | 0 => fail
  | fuel + 1 => do
      let next ← peek
      let key ←
        if next == .value || endsFlowPart false next then do
          pass
          pure emptyNode
        else node fuel false false
      return .mapping [(key, ← flowValue fuel false)]

/-- The items of a flow sequence. -/
def flowItems (fuel : Nat) (isFirst : Bool) (acc : List Node) : Read Node :=
  match fuel with
  | 0 => fail
  | fuel + 1 => do
      let next ← peek
      let next ←
        if isFirst || next == .flowSequenceEnd then pure next
        else if next == .flowEntry then passed
        else fail
      match next with
      | .flowSequenceEnd =>
          pass
          return .sequence acc.reverse
      | .key =>
          pass
          flowItems fuel false ((← flowPair fuel) :: acc)
      | _ => flowItems fuel false ((← node fuel false false) :: acc)

/-- The entries of a flow mapping. -/
def flowEntries (fuel : Nat) (isFirst : Bool) (acc : List (Node × Node)) : Read Node :=
  match fuel with
  | 0 => fail
  | fuel + 1 => do
      let next ← peek
      let next ←
        if isFirst || next == .flowMappingEnd then pure next
        else if next == .flowEntry then passed
        else fail
      match next with
      | .flowMappingEnd =>
          pass
          return .mapping acc.reverse
      | .key =>
          let next ← passed
          let key ←
            if next == .value || endsFlowPart true next then pure emptyNode
            else node fuel false false
          flowEntries fuel false ((key, ← flowValue fuel true) :: acc)
      | _ => flowEntries fuel false ((← node fuel false false, emptyNode) :: acc)

end

/-! ## Documents -/

/-- The handles that are known without being declared. -/
def defaultHandles : List (String × String) := [("!", "!"), ("!!", tagStart)]

/-- Reads the directives before a document.  There is one version, and nothing is declared twice. -/
def directives (fuel : Nat) (hasVersion : Bool) (handles : List (String × String)) : Read Unit :=
  match fuel with
  | 0 => fail
  | fuel + 1 => do
      match ← peek with
      | .version major minor =>
          if hasVersion || major != 1 || minor != 1 then fail
          else
            pass
            directives fuel true handles
      | .tagDirective handle start =>
          if (handles.lookup handle).isSome then fail
          else
            pass
            directives fuel hasVersion ((handle, start) :: handles)
      | _ => modify fun r => { r with handles := handles ++ defaultHandles }

/-- Reads the root of the first document. -/
def root (fuel : Nat) : Read Node := do
  match ← peek with
  | .streamEnd => return emptyNode
  | .version .. | .tagDirective .. | .documentStart =>
      directives fuel false []
      if (← peek) != .documentStart then fail
      else
        let n ←
          match ← passed with
          | .version .. | .tagDirective .. | .documentStart | .documentEnd | .streamEnd =>
              pure emptyNode
          | _ => node fuel true false
        let _ ← peek
        return n
  | _ =>
      directives fuel false []
      let n ← node fuel true false
      let _ ← peek
      return n

end Read

/-- Characters that a document may hold. -/
def isDocumentChar (c : Char) : Bool :=
  ['\t', '\r', '\u0085', '\uFEFF'].contains c || isPlainChar c || 0x10000 ≤ c.toNat

/-- The text without the mark of its byte order. -/
def withoutByteOrder : List Char → List Char
  | [] => []
  | c :: rest => if c == '\uFEFF' then rest else c :: rest

/-- Reads the first document of a text; a text without one is an empty node. -/
def parse? (s : String) : Option Document :=
  let cs := withoutByteOrder s.toList
  if !cs.all isDocumentChar then none
  else
    ((Read.root (8 * cs.length + 64)).run
      { scanner := { source := { rest := cs, size := cs.length } } }).map
      fun (n, r) => { root := n, named := r.named, size := cs.length }

end Yaml
end ApiPages

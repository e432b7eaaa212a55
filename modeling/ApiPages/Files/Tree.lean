import ApiPages.Text.Bytes
import ApiPages.Text.SlashPath

/-!
# File trees

The files a run sees and leaves behind, as a value.

* `Place` is a position in a tree: the names to follow from the working directory;
* `FileTree.resolve` follows a path, which needs a directory before each of its steps;
* `FileTree.read`, `FileTree.write`, `FileTree.makeDirs`, `FileTree.save`, `FileTree.move`,
  `FileTree.removeAll` and `FileTree.copyAll` work on paths and fail as a file system does.

An operation that fails leaves the tree as it was, except for copying, which stops where it fails.
-/

namespace ApiPages

/-! ## Nodes -/

inductive FileNode where
  | dir
  | file (content : Bytes)
  deriving DecidableEq, Repr

/-! ## Errors -/

inductive OsReason where
  | notFound
  | notDirectory
  | isDirectory
  | alreadyThere
  | invalid
  deriving DecidableEq, Repr

def OsReason.message : OsReason → String
  | notFound => "no such file or directory"
  | notDirectory => "not a directory"
  | isDirectory => "is a directory"
  | alreadyThere => "file exists"
  | invalid => "invalid argument"

/-- Why an action on files failed.  The action is named with the paths it was given. -/
structure OsError where
  action : String
  reason : OsReason
  deriving DecidableEq, Repr

def OsError.message (e : OsError) : String :=
  e.action ++ ": " ++ e.reason.message

/-! ## Places -/

/-- The names to follow from the working directory.  A place outside of it starts with `..`, and one
that starts at the root with `/`.  Where the working directory lies is not known: a place named from
the root and one named from the working directory are never the same. -/
abbrev Place := List String

namespace Place

/-- Whether the place lies above every tree: the working directory, those around it, and the
root. -/
def isBase (p : Place) : Bool :=
  p == ["/"] || p.all (· == "..")

def parent (p : Place) : Place :=
  if p == ["/"] then p
  else if p.all (· == "..") then p ++ [".."]
  else p.dropLast

def step (p : Place) (name : String) : Place :=
  if name == ".." then p.parent else p ++ [name]

/-- The place a path names when nothing but its text is looked at.  Paths from the root and relative
paths lead into trees that have nothing in common, so a directory has to be named in one way
wherever it is read and written. -/
def ofPath (path : String) : Place :=
  (if SlashPath.isRooted path then ["/"] else []) ++ (SlashPath.elements path).map String.ofList

def path : Place → String
  | [] => "."
  | "/" :: rest => "/" ++ Text.joined "/" rest
  | p => Text.joined "/" p

/-- Places in the order of a walk: a directory comes before what is in it, names are in order. -/
def key (p : Place) : String :=
  Text.joined "\x00" p

end Place

/-! ## Trees -/

structure FileTree where
  entries : List (Place × FileNode) := []
  deriving DecidableEq, Repr

namespace FileTree

def node? (t : FileTree) (p : Place) : Option FileNode :=
  if p.isBase then some .dir else t.entries.lookup p

def isDirAt (t : FileTree) (p : Place) : Bool :=
  t.node? p == some .dir

/-- Puts a node at a place, instead of the one that is there. -/
def set (t : FileTree) (p : Place) (n : FileNode) : FileTree :=
  { entries := t.entries.filter (fun e => e.1 != p) ++ [(p, n)] }

/-- Whether a place is another one or lies below it. -/
def isWithin (p above : Place) : Bool := above.isPrefixOf p

/-- Takes away everything at and below a place. -/
def erase (t : FileTree) (p : Place) : FileTree :=
  { entries := t.entries.filter (fun e => !isWithin e.1 p) }

/-- The entries at and below a place with their places relative to it, in the order of a walk. -/
def below (t : FileTree) (p : Place) : List (Place × FileNode) :=
  ((t.entries.filter (fun e => isWithin e.1 p)).map fun e => (e.1.drop p.length, e.2)).mergeSort
    (fun a b => a.1.key ≤ b.1.key)

/-- The names in a directory with their nodes, in order. -/
def children (t : FileTree) (p : Place) : List (String × FileNode) :=
  (t.below p).filterMap fun e =>
    match e.1 with
    | [name] => some (name, e.2)
    | _ => none

/-! ## Following paths -/

/-- Follows names from a place; each step needs a directory to start from. -/
def follow (t : FileTree) : Place → List String → Except OsReason Place
  | p, [] => .ok p
  | p, name :: rest =>
      match t.node? p with
      | some .dir => follow t (p.step name) rest
      | some (.file _) => .error .notDirectory
      | none => .error .notFound

/-- The steps of a path. -/
def steps (path : String) : List String :=
  (Text.pieces '/' path).filter fun s => !s.isEmpty && s != "."

def resolve (t : FileTree) (path : String) : Except OsReason Place :=
  if path.isEmpty then .error .notFound
  else t.follow (if SlashPath.isRooted path then ["/"] else []) (steps path)

/-- What a path leads to. -/
def look (t : FileTree) (path : String) : Except OsReason FileNode :=
  match t.resolve path with
  | .error r => .error r
  | .ok p =>
      match t.node? p with
      | some n => .ok n
      | none => .error .notFound

def isDir (t : FileTree) (path : String) : Bool :=
  match t.look path with
  | .ok .dir => true
  | _ => false

def exists? (t : FileTree) (path : String) : Bool :=
  match t.look path with
  | .ok _ => true
  | .error _ => false

/-! ## Reading -/

def read (t : FileTree) (path : String) : Except OsError Bytes :=
  match t.look path with
  | .error r => .error ⟨"open " ++ path, r⟩
  | .ok .dir => .error ⟨"read " ++ path, .isDirectory⟩
  | .ok (.file b) => .ok b

/-- The text of a file, if there is one. -/
def text? (t : FileTree) (path : String) : Option String :=
  match t.read path with
  | .ok b => some b.text
  | .error _ => none

/-- The names in the directory at a path. -/
def list? (t : FileTree) (path : String) : Option (List (String × FileNode)) :=
  match t.resolve path with
  | .error _ => none
  | .ok p => if t.isDirAt p then some (t.children p) else none

/-! ## Writing -/

/-- Makes the directories on the way from one place to a place below it. -/
def makeBelow (t : FileTree) (done : Place) : List String → Except OsError FileTree
  | [] => .ok t
  | name :: rest =>
      let p := done ++ [name]
      match t.node? p with
      | some .dir => makeBelow t p rest
      | some (.file _) => .error ⟨"mkdir " ++ p.path, .notDirectory⟩
      | none => makeBelow (t.set p .dir) p rest

/-- Makes a directory and those it lies in. -/
def makeDirs (t : FileTree) (path : String) : Except OsError FileTree :=
  t.makeBelow [] (Place.ofPath path)

/-- Writes a file into a directory that is there. -/
def write (t : FileTree) (path : String) (b : Bytes) : Except OsError FileTree :=
  match t.resolve path with
  | .error r => .error ⟨"open " ++ path, r⟩
  | .ok p =>
      if t.isDirAt p then .error ⟨"open " ++ path, .isDirectory⟩ else .ok (t.set p (.file b))

/-- Writes a file, making the directories it lies in. -/
def save (t : FileTree) (path : String) (b : Bytes) : Except OsError FileTree :=
  match t.makeDirs (SlashPath.dir path) with
  | .error e => .error e
  | .ok t => t.write path b

/-! ## Moving and removing -/

/-- Puts what is at and below one place at another. -/
def transplant (t : FileTree) (p q : Place) : FileTree :=
  let moved := (t.below p).map fun e => (q ++ e.1, e.2)
  let rest := (t.erase p).erase q
  { entries := rest.entries ++ moved }

/-- Moves a file or a directory.  A directory is never replaced, and only a file replaces a file. -/
def move (t : FileTree) (old new : String) : Except OsError FileTree :=
  let fail (r : OsReason) : Except OsError FileTree := .error ⟨"rename " ++ old ++ " " ++ new, r⟩
  match t.resolve old, t.look old with
  | .error r, _ => fail r
  | _, .error r => fail r
  | .ok p, .ok n =>
      match t.resolve new with
      | .error r => fail r
      | .ok q =>
          match t.node? q with
          -- a directory may be moved to where it is, under another spelling
          | some .dir => if p == q && old != new then .ok t else fail .alreadyThere
          | some (.file _) =>
              if n == .dir then fail .notDirectory else if p == q then .ok t
              else .ok (t.transplant p q)
          -- nothing can be moved below itself
          | none => if isWithin q p then fail .invalid else .ok (t.transplant p q)

/-- Removes what a path leads to and everything below; it may also be missing. -/
def removeAll (t : FileTree) (path : String) : Except OsError FileTree :=
  if path.isEmpty then .ok t
  else if path == "." || Text.endsWith path "/." then
    .error ⟨"RemoveAll " ++ path, .invalid⟩
  else
    match t.resolve path with
    | .ok p => .ok (t.erase p)
    | .error .notDirectory =>
        -- a file stands on the way; the error tells whether it is the last step but one
        let above := Text.cutSuffix (String.ofList (SlashPath.beforeLast path.toList)) "/"
        if t.exists? above then
          .error ⟨"unlinkat " ++ above ++ "/" ++ SlashPath.base path, .notDirectory⟩
        else .error ⟨"open " ++ above, .notDirectory⟩
    | .error _ => .ok t

/-! ## Copying -/

/-- Copies one entry to a place. -/
def copyEntry (t : FileTree) (p : Place) : FileNode → Except OsError FileTree
  | .dir => t.makeBelow [] p
  | .file b => t.write p.path b

/-- Copies entries below a place one after the other, up to the first that fails. -/
def copyEntries (t : FileTree) (target : Place) :
    List (Place × FileNode) → FileTree × Option OsError
  | [] => (t, none)
  | (p, n) :: rest =>
      match t.copyEntry (target ++ p) n with
      | .ok t => copyEntries t target rest
      | .error e => (t, some e)

/-- Copies a directory with everything in it. -/
def copyAll (t : FileTree) (source target : String) : FileTree × Option OsError :=
  match t.resolve source, t.look source with
  -- the directory comes first, so that an empty one is copied as well
  | .ok p, .ok .dir =>
      t.copyEntries (Place.ofPath target) (([], .dir) :: (t.below p).filter (·.1 != []))
  | .ok _, .ok (.file b) =>
      match t.write (Place.ofPath target).path b with
      | .ok t => (t, none)
      | .error e => (t, some e)
  | .error r, _ => (t, some ⟨"lstat " ++ source, r⟩)
  | _, .error r => (t, some ⟨"lstat " ++ source, r⟩)

end FileTree
end ApiPages

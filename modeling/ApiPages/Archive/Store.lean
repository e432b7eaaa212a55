import ApiPages.Archive.Digest
import ApiPages.Archive.Packing
import ApiPages.Files.Tree
import ApiPages.Text.Blank

/-!
# The archive of type graphs

Contents are rows of bytes.  They are stored packed under their digest, and names point at digests.

* `Archive.put` and `Archive.get` store and fetch a content;
* `Archive.tag` and `Archive.resolve` set and follow a name.

Every operation takes the directory the archive lies in and the files it works on.
-/

namespace ApiPages
namespace Archive

/-! ## Places -/

/-- Where a content lies: its directory is named by the first two bytes of the digest. -/
def contentPath (dir digest : String) : String :=
  let cs := digest.toList
  -- only what is no digest has a character of several bytes there
  let front := if Text.byteLength (cs.take 1) == 1 then 2 else 1
  SlashPath.join [dir, String.ofList (cs.take front), String.ofList (cs.drop front) ++ ".json.zst"]

/-- Where a name lies.  Colons cannot stand in every file name. -/
def namePath (dir name : String) : String :=
  SlashPath.join [dir, "refs", Text.replaced name ":" "_"]

/-! ## Errors -/

inductive Error where
  /-- Something that is no digest, with the name that points at it if one does. -/
  | invalidDigest (name? : Option String) (digest : String)
  | files (doing : String) (e : OsError)
  /-- The content to be stored cannot be read. -/
  | unreadable (e : OsError)
  | compressed (digest : String)
  deriving DecidableEq, Repr

def Error.message : Error → String
  | invalidDigest none digest => "invalid CAS hash: " ++ Text.quoted digest
  | invalidDigest (some name) digest =>
      "ref " ++ name ++ ": invalid CAS hash: " ++ Text.quoted digest
  | files doing e => doing ++ ": " ++ e.message
  | unreadable e => e.message
  | compressed digest => "decompressing CAS file " ++ digest ++ ": invalid input"

def doing {α : Type} (what : String) : Except OsError α → Except Error α
  | .ok a => .ok a
  | .error e => .error (.files what e)

/-! ## Contents -/

/-- Stores a content and gives its digest.  A content that is there is not stored again. -/
def put (packing : Packing) (dir : String) (t : FileTree) (content : Bytes) :
    Except Error (FileTree × String) := do
  let digest := Digest.ofBytes content
  let path := contentPath dir digest
  if t.exists? path then return (t, digest)
  let t ← doing "creating CAS directory" (t.makeDirs (SlashPath.dir path))
  let t ← doing "writing CAS file" (t.write path (packing.pack content))
  return (t, digest)

/-- The content with a digest. -/
def get (packing : Packing) (dir : String) (t : FileTree) (digest : String) : Except Error Bytes :=
  if !Digest.isValid digest then .error (.invalidDigest none digest)
  else
    match t.read (contentPath dir digest) with
    | .error e =>
        if e.reason == .isDirectory then .error (.compressed digest)
        else .error (.files ("reading CAS file " ++ digest) e)
    | .ok b =>
        match packing.unpack? b with
        | some content => .ok content
        | none => .error (.compressed digest)

/-! ## Names -/

/-- Points a name at a digest. -/
def tag (dir : String) (t : FileTree) (name digest : String) : Except Error FileTree := do
  if !Digest.isValid digest then throw (.invalidDigest none digest)
  let path := namePath dir name
  let t ← doing "creating refs directory" (t.makeDirs (SlashPath.dir path))
  doing ("writing ref " ++ name) (t.write path (.ofText (digest ++ "\n")))

/-- The digest a name points at. -/
def resolve (dir : String) (t : FileTree) (name : String) : Except Error String := do
  let b ← doing ("reading ref " ++ name) (t.read (namePath dir name))
  let digest := Text.strip b.text
  if Digest.isValid digest then return digest
  else throw (.invalidDigest (some name) digest)

end Archive
end ApiPages

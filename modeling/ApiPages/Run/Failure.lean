import ApiPages.Archive.Store
import ApiPages.Graph.Tree
import ApiPages.Settings.Target

/-!
# What can go wrong in a run

Every way in which an input or a whole run fails, and the words for it.

* `ToolFailure` is a program that ran, or should have, without a usable result;
* `Failure` is any failure, and `Failure.message` its wording;
* `Failure.isMissingFile` says that a file was not there.
-/

namespace ApiPages

inductive ToolFailure where
  | emission (t : Target) (fault output : String)
  | noGraph (path : String)
  | unmovable (e : OsError)
  | build (fault output : String)
  | noDocs (path : String)
  | noFolder (crate path : String)
  | protoc (file fault output : String)
  | noDocument (file : String)
  deriving DecidableEq, Repr

/-- The fault of a program with what it printed. -/
def ToolFailure.complaint (what fault output : String) : String :=
  what ++ ": " ++ fault ++ ": " ++ Text.strip output

def ToolFailure.detail : ToolFailure → String
  | emission t fault output => complaint ("cargo rustdoc " ++ t.label) fault output
  | noGraph path => "type graph not found at " ++ path
  | unmovable e => "moving type graph: " ++ e.message
  | build fault output => complaint "cargo doc" fault output
  | noDocs path => "rustdoc output not found at " ++ path
  | noFolder crate path => "no documentation folder for " ++ crate ++ " in " ++ path
  | protoc file fault output => complaint ("protoc on " ++ file) fault output
  | noDocument file => "protoc wrote no output for " ++ file

inductive Failure where
  | cancelled
  | noInput
  /-- A page could not be written, which ends the run. -/
  | write (path : String) (e : OsError)
  | skippedInCI
  | noCargo
  | tool (f : ToolFailure)
  | noScratch (e : OsError)
  | badPattern (dir : String)
  | unopened (file : String) (e : OsError)
  | unread (file : String) (e : OsError)
  | longLine (file : String)
  | uncompiled (file : String)
  | noGraphFile (e : OsError)
  | malformedGraph
  | tree (e : TreeError)
  | badUrl (url reason : String)
  | refused (status : Nat) (crate version body : String)
  | compressedGraph
  | archive (e : Archive.Error)
  | unclean (dir : String) (e : OsError)
  | uncopied (e : OsError)
  | unrenamed (e : OsError)
  deriving DecidableEq, Repr

namespace Failure

def message : Failure → String
  | cancelled => "context canceled"
  | noInput => "no input files"
  | write path e => "writing " ++ path ++ ": " ++ e.message
  | skippedInCI => "toolchain unavailable in CI, skipping"
  | noCargo => "tool unavailable: cargo is not installed or not in PATH (https://rustup.rs/)"
  | tool f => "tool failed: " ++ f.detail
  | noScratch e => "creating temp dir: " ++ e.message
  | badPattern dir => "listing " ++ dir ++ ": syntax error in pattern"
  | unopened file e => "opening " ++ file ++ ": " ++ e.message
  | unread file e => "parsing " ++ file ++ ": reading proto source: " ++ e.message
  | longLine file => "parsing " ++ file ++ ": reading proto source: bufio.Scanner: token too long"
  | uncompiled file => "compiling " ++ file ++ ": invalid definition"
  | noGraphFile e => "opening type graph: " ++ e.message
  | malformedGraph => "decoding type graph: invalid input"
  | tree e => e.message
  | badUrl url reason => "creating request: parse " ++ Text.quoted url ++ ": " ++ reason
  | refused status crate version body =>
      "docs.rs returned " ++ toString status ++ " for " ++ crate ++ "/" ++ version ++ ": " ++ body
  | compressedGraph => "decompressing rustdoc JSON: invalid input"
  | archive e => e.message
  | unclean dir e => "cleaning " ++ dir ++ ": " ++ e.message
  | uncopied e => "copying rustdoc HTML: " ++ e.message
  | unrenamed e => "renaming crate folder: " ++ e.message

/-- Whether the failure ends a run at once. -/
def isWrite : Failure → Bool
  | write _ _ => true
  | _ => false

/-- The file error behind a failure. -/
def osError? : Failure → Option OsError
  | noScratch e | unopened _ e | unread _ e | noGraphFile e | unclean _ e | uncopied e |
        unrenamed e =>
      some e
  | archive (.files _ e) | archive (.unreadable e) => some e
  | _ => none

/-- Whether the cause is a file that is not there. -/
def isMissingFile (f : Failure) : Bool :=
  match f.osError? with
  | some e => e.reason == .notFound
  | none => false

end Failure
end ApiPages

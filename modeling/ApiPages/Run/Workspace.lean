import ApiPages.Run.Failure
import ApiPages.Run.Formats

/-!
# Workspaces

What a run works with: its files, its environment, the formats it writes and reads, the programs it
can call and the web, together with the trace it leaves.

* `Toolbox` is the programs, as functions on the files;
* `Record` is an entry of the log;
* `Workspace` holds all of it, and an `Action` is a step that may change it.
-/

namespace ApiPages

/-! ## Programs -/

structure Call where
  /-- The directory the program runs in; empty for the working directory. -/
  dir : String
  name : String
  args : List String
  deriving DecidableEq, Repr

/-- What a program printed, and how it failed if it did. -/
structure Reply where
  output : String := ""
  fault? : Option String := none
  deriving DecidableEq, Repr

structure Toolbox where
  run : Call → FileTree → FileTree × Reply
  isInstalled : String → Bool

/-- The programs found, and whether the run is one of continuous integration. -/
structure Capabilities where
  protoc : Bool := false
  protocGenDoc : Bool := false
  cargo : Bool := false
  ci : Bool := false
  deriving DecidableEq, Repr

/-- Whether definitions can be documented by a program. -/
def Capabilities.protoTool (c : Capabilities) : Bool := c.protoc && c.protocGenDoc

/-! ## The web -/

structure WebReply where
  status : Nat
  body : Bytes
  deriving DecidableEq, Repr

/-! ## The log -/

inductive Level where
  | debug
  | info
  | warn
  | error
  deriving DecidableEq, Repr

inductive LogValue where
  | text (s : String)
  | count (n : Nat)
  | failure (f : Failure)
  deriving DecidableEq, Repr

structure Record where
  level : Level
  message : String
  attributes : List (String × LogValue) := []
  deriving DecidableEq, Repr

/-! ## Workspaces -/

structure Workspace where
  files : FileTree := {}
  environment : Environment := []
  formats : Formats
  tools : Toolbox
  web : String → WebReply
  /-- Where published type graphs are served. -/
  registry : String := "https://docs.rs"
  /-- The directory that programs may use for temporary files. -/
  scratch : String
  isCancelled : Bool := false
  calls : List Call := []
  requests : List String := []
  log : List Record := []

abbrev Action := StateM Workspace

namespace Action

def files : Action FileTree := do
  return (← get).files

def setFiles (t : FileTree) : Action Unit :=
  modify fun w => { w with files := t }

/-- Changes the files by an operation that may fail. -/
def change (f : FileTree → Except OsError FileTree) : Action (Option OsError) := do
  match f (← files) with
  | .ok t =>
      setFiles t
      return none
  | .error e => return some e

def record (level : Level) (message : String) (attributes : List (String × LogValue)) :
    Action Unit :=
  modify fun w => { w with log := w.log ++ [{ level, message, attributes }] }

/-- Calls a program. -/
def call (c : Call) : Action Reply := do
  let w ← get
  let (t, reply) := w.tools.run c w.files
  set { w with files := t, calls := w.calls ++ [c] }
  return reply

/-- The name under which requests are made. -/
def userAgent : String := "refdocs/0.1.0"

/-- Asks for a page of the web. -/
def request (url : String) : Action WebReply := do
  modify fun w => { w with requests := w.requests ++ ["GET " ++ url ++ " " ++ userAgent] }
  return (← get).web url

/-- Writes a page below a directory. -/
def writePage (dir name : String) (content : Bytes) : Action (Option Failure) := do
  let path := SlashPath.join [dir, name]
  return (← change fun t => t.save path content).map (.write path)

end Action
end ApiPages

import ApiPages.Command.Arguments
import ApiPages.Run.Html
import ApiPages.Run.Proto
import ApiPages.Run.Rustdoc
import ApiPages.Settings.Load
import ApiPages.Tool.Probe

/-!
# Commands

What each command prints and how it exits.

* `Command.succeeds` says that a run counts as a success;
* `Command.runAll` carries out several runs, the later ones also after a failure unless a page could
  not be written;
* `Command.execute` carries out a command line.
-/

namespace ApiPages
namespace Command

structure Result where
  stdout : String := ""
  exit : Nat := 0
  deriving DecidableEq, Repr

def failure : Result := { exit := 1 }

/-! ## Runs -/

/-- A run that was skipped counts as a success, one that broke off as a failure. -/
def succeeds (r : Report Failure) (e? : Option Failure) (strict : Bool) : Bool :=
  match e? with
  | some .skippedInCI => true
  | some _ => false
  | none => (r.verdict? strict).isNone

def finish (s : Settings) (r : Report Failure) (e? : Option Failure) : Result where
  stdout := r.render Failure.message
  exit := if succeeds r e? s.strict then 0 else 1

/-- Carries out runs in order, with what was printed so far and whether all succeeded. -/
def runAll (s : Settings) :
    Result → List (Action (Report Failure × Option Failure)) → Action Result
  | so, [] =>
      return if so.exit == 0 then { so with stdout := so.stdout ++ "all documentation generated\n" }
        else so
  | so, run :: rest => do
      let (r, e?) ← run
      -- what was printed so far stays, the report of this run is not printed
      if (e?.map Failure.isWrite).getD false then return { so with exit := 1 }
      let this := finish s r e?
      runAll s { stdout := so.stdout ++ this.stdout, exit := max so.exit this.exit } rest

/-! ## Probing -/

def present (found : Bool) : String := if found then "found" else "not found"

def probeText (c : Capabilities) : String :=
  "protoc:          " ++ present c.protoc ++ "\n" ++
    "protoc-gen-doc:  " ++ present c.protocGenDoc ++ "\n" ++
    "cargo:           " ++ present c.cargo ++ "\n" ++
    "ci environment:  " ++ (if c.ci then "true" else "false") ++ "\n" ++
    "proto pages:     " ++ (if c.protoTool then "protoc-gen-doc" else "built-in parser") ++ "\n"

/-! ## Command lines -/

/-- The settings of a command: what its flags say over everything else. -/
def settings (c : CommandName) (flags : Arguments.Settled) (w : Workspace) :
    Except Settings.LoadError Settings :=
  (Settings.load w.formats.settings (Arguments.textOf flags "config") w.files.text? w.environment
    (Arguments.overrides c flags)).map fun s =>
      if c == .proto && Arguments.isOn flags "no-tool" then
        { s with proto := { s.proto with useTool := false } }
      else s

def request (flags : Arguments.Settled) : RustdocRequest where
  graphFiles := Arguments.textsOf flags "json"
  crates := Arguments.textsOf flags "crate"
  fromArchive := Arguments.isOn flags "from-archive"

/-- Carries out a command with its settings and the programs that were found. -/
def perform (c : CommandName) (flags : Arguments.Settled) (s : Settings) (caps : Capabilities) :
    Action Result := do
  let single (run : Action (Report Failure × Option Failure)) : Action Result := do
    let (r, e?) ← run
    return finish s r e?
  match c with
  | .proto => single (ProtoRun.run s caps)
  | .rustdoc => single (RustdocRun.run s caps (request flags))
  | .html => single (HtmlRun.run s caps)
  | .probe => return { stdout := probeText caps }
  | .all =>
      runAll s {} ([ProtoRun.run s caps, RustdocRun.run s caps {}] ++
        if Arguments.isOn flags "html" then [HtmlRun.run s caps] else [])

/-- Carries out a command line.  Without a command there is nothing to do, unless a flag is
wrong. -/
def execute (args : List String) : Action Result := do
  match Arguments.splitWord? [] args with
  | none =>
      return if (Arguments.parse CommandName.commonFlags args).isSome then {} else failure
  | some (word, rest) =>
      match CommandName.ofWord? word with
      | none => return if word == "help" || word == "completion" then {} else failure
      | some c =>
          match Arguments.parse c.flags rest with
          | none => return failure
          | some flags =>
              if Arguments.isOn flags "help" then return {}
              match settings c flags (← get) with
              | .error _ => return failure
              | .ok s =>
                  let caps ← Tool.probe s.ciVariables
                  perform c flags s caps

end Command
end ApiPages

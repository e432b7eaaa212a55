import ApiPages.Graph.Tree
import ApiPages.Markdown.Inline
import ApiPages.Page.Module
import ApiPages.Run.Cargo
import ApiPages.Tool.Cargo
import ApiPages.Tool.Registry

/-!
# Documenting type graphs

Pages for every module of every type graph a run is asked for: graphs in files, graphs of published
crates, graphs from the archive, or graphs that cargo emits for the configured targets.

* `GraphInput` is a graph that is to be documented;
* `RustdocRun.indexOf` loads it, `RustdocRun.pagesOf` renders it;
* `RustdocRun.gather` collects the graphs of a request, with outcomes for those that are not to be
  had;
* `RustdocRun.documentAll` goes through them: all pages of a graph are rendered before any is
  written.
-/

namespace ApiPages

/-- Where a type graph is. -/
inductive GraphSource where
  | file (path : String)
  | data (content : Bytes)
  deriving DecidableEq, Repr

/-- The graph at a path.  A path that is empty leads to nothing. -/
def GraphSource.ofPath (path : String) : GraphSource :=
  if path.isEmpty then .data [] else .file path

structure GraphInput where
  /-- Names the input in reports. -/
  label : String
  source : GraphSource
  mode : Mode := .library
  /-- Stands for the configured crate name, if not empty. -/
  crateName : String := ""
  /-- The directory below the output directory that the pages go to. -/
  subdir : String := ""
  deriving DecidableEq, Repr

/-- What a run is asked for; with nothing given, the configured targets. -/
structure RustdocRequest where
  graphFiles : List String := []
  crates : List String := []
  fromArchive : Bool := false
  deriving DecidableEq, Repr

namespace RustdocRun

/-! ## One graph -/

/-- Loads a graph.  A file whose name says so is packed. -/
def indexOf (packing : Packing) (files : FileTree) : GraphSource → Except Failure Index
  | .data content =>
      match Index.parse? (Utf8.text content) with
      | some idx => .ok idx
      | none => .error .malformedGraph
  | .file path =>
      match files.read path with
      | .error e => .error (if e.reason == .isDirectory then .malformedGraph else .noGraphFile e)
      | .ok b =>
          let content? := if Text.endsWith path ".zst" then packing.unpack? b else some b
          match content?.bind fun content => Index.decode? (Utf8.text content) with
          | some idx => .ok idx
          | none => .error .malformedGraph

def treeOf (packing : Packing) (files : FileTree) (g : GraphInput) : Except Failure Tree :=
  match indexOf packing files g.source with
  | .error e => .error e
  | .ok idx =>
      match Tree.ofIndex idx g.mode "" with
      | .error e => .error (.tree e)
      | .ok t => .ok t

/-- How the pages of a graph look.  Pages in a directory of their own are also served from one. -/
def optionsOf (s : Settings) (g : GraphInput) : PageOptions where
  crateName := if g.crateName.isEmpty then s.rustdoc.crateName else g.crateName
  runtimeTitle := s.rustdoc.runtimeTitle
  extension := s.extension
  linkBase :=
    if s.rustdoc.linkBase.isEmpty || g.subdir.isEmpty then s.rustdoc.linkBase
    else SlashPath.join [s.rustdoc.linkBase, g.subdir]

/-- Moves a page into the directory of its graph. -/
def relocate (g : GraphInput) (p : Page) : Page :=
  if g.subdir.isEmpty then p else { p with file := SlashPath.join [g.subdir, p.file] }

def pagesOf (s : Settings) (g : GraphInput) (t : Tree) : List Page :=
  (ModulePages.render Markdown.survey (optionsOf s g) t).map (relocate g)

/-- The log entry of a type that could not be formatted. -/
def gapRecord (gap : TypeExpr.Gap) : Record where
  level := if gap.isQuiet then .debug else .warn
  message :=
    match gap.reason? with
    | none => "formatting absent type"
    | some _ => "formatting unknown type"
  attributes :=
    match gap.reason?, gap with
    | none, _ => []
    | some reason, .unrecognised raw =>
        ("reason", .text reason) :: if gap.isQuiet then [] else [("raw", .text raw)]
    | some reason, _ => [("reason", .text reason)]

/-- The log entries about a tree. -/
def treeRecords (g : GraphInput) (t : Tree) : List Record :=
  (if t.isEmpty then
    [{ level := .warn, message := "root module has no documented items"
       attributes := [("input", .text g.label)] }]
  else []) ++
  (if t.dangling.isEmpty then []
  else
    [{ level := .debug, message := "dangling references skipped"
       attributes := [("input", .text g.label), ("count", .count t.dangling.length)] }]) ++
  (ModulePages.notes t).map gapRecord

/-- The pages of a graph. -/
structure GraphPages where
  pages : List Page
  dangling : Nat
  deriving DecidableEq, Repr

def generate (s : Settings) (g : GraphInput) : Action (Except Failure GraphPages) := do
  let w ← get
  match treeOf w.formats.packing w.files g with
  | .error e => return .error e
  | .ok t =>
      modify fun w => { w with log := w.log ++ treeRecords g t }
      return .ok { pages := pagesOf s g t, dangling := t.dangling.length }

/-! ## Writing pages -/

/-- The pages written in a run, with the inputs they came from; later ones come first. -/
abbrev Written := List (String × String)

/-- Writes pages in order, noting those that replace a page of the same run. -/
def writeAll (s : Settings) (label : String) :
    Written → List Page → Action (Except Failure Written)
  | written, [] => return .ok written
  | written, p :: rest => do
      if let some earlier := written.lookup p.file then
        Action.record .info "page replaced by later input"
          [("page", .text p.file), ("previous", .text earlier), ("input", .text label)]
      let content := p.bytes (← get).formats.headers
      match ← Action.writePage s.rustdoc.outputDir p.file content with
      | some e => return .error e
      | none => writeAll s label ((p.file, label) :: written) rest

/-- Documents graphs one after the other.  Only a page that cannot be written ends the run. -/
def documentAll (s : Settings) :
    Written → List GraphInput → Report Failure → Action (Report Failure × Option Failure)
  | _, [], r => return (r, none)
  | written, g :: rest, r => do
      if (← get).isCancelled then return (r, some .cancelled)
      match ← generate s g with
      | .error e =>
          Action.record .error "failed to document type graph"
            [("input", .text g.label), ("error", .failure e)]
          documentAll s written rest (r.add { input := g.label, failure? := some e })
      | .ok result =>
          -- by now all pages of the graph are rendered, so that a broken graph leaves none behind
          match ← writeAll s g.label written result.pages with
          | .error e => return (r, some e)
          | .ok written =>
              Action.record .info "generated rustdoc pages"
                [("input", .text g.label), ("pages", .count result.pages.length)]
              documentAll s written rest
                ({ r with dangling := r.dangling + result.dangling }.add
                  { input := g.label, source := "rustdoc", pages := result.pages.map Page.file })

/-! ## The archive -/

/-- The name under which the graph of a target is archived. -/
def archiveName (s : Settings) (t : Target) : String :=
  s.rustdoc.crateName ++ "/" ++ t.label

/-- Stores a graph and points the target's name at it. -/
def store (packing : Packing) (s : Settings) (t : Target) (dir : String) (files : FileTree)
    (data : Bytes) : FileTree × Except Archive.Error String :=
  match Archive.put packing dir files data with
  | .error e => (files, .error e)
  | .ok (files, digest) =>
      match Archive.tag dir files (archiveName s t) digest with
      | .error e => (files, .error e)
      | .ok files => (files, .ok digest)

/-- Archives an emitted graph.  That it fails is logged and has no other effect. -/
def archive (s : Settings) (t : Target) (path : String) : Action Unit := do
  let w ← get
  let complain (e : Failure) :=
    Action.record .warn "failed to archive type graph"
      [("target", .text t.label), ("error", .failure e)]
  match w.files.read path with
  | .error e => complain (.archive (.unreadable e))
  | .ok b =>
      let (files, result) := store w.formats.packing s t w.environment.archiveDir w.files b
      -- a content that is stored stays, even if no name could be pointed at it
      Action.setFiles files
      match result with
      | .error e => complain (.archive e)
      | .ok digest =>
          Action.record .info "archived type graph"
            [("target", .text t.label), ("hash", .text digest)]

/-- The graph last archived for a target. -/
def unarchive (s : Settings) (t : Target) (w : Workspace) : Except Failure Bytes :=
  let dir := w.environment.archiveDir
  match (Archive.resolve dir w.files (archiveName s t)).bind
      (Archive.get w.formats.packing dir w.files) with
  | .ok data => .ok data
  | .error e => .error (.archive e)

/-! ## Gathering graphs -/

/-- The graphs that are to be had, with the report on those that are not. -/
abbrev Gathered := List GraphInput × Report Failure

/-- Notes that a graph is not to be had. -/
def decline (message key input : String) (e : Failure) (r : Report Failure) :
    Action (Report Failure) := do
  Action.record .error message [(key, .text input), ("error", .failure e)]
  return r.add { input, failure? := some e }

def ofFiles (s : Settings) (paths : List String) : List GraphInput :=
  paths.map fun p => { label := p, source := .ofPath p, mode := s.rustdoc.modeOfFile p }

def gatherCrates : List String → Report Failure → Action Gathered
  | [], r => return ([], r)
  | text :: rest, r => do
      let spec := CrateSpec.ofText text
      match ← Tool.fetchGraph spec with
      | .error e => gatherCrates rest (← decline "failed to fetch type graph" "crate" text e r)
      | .ok data =>
          let (graphs, r) ← gatherCrates rest r
          return ({ label := text, source := .data data, crateName := spec.name,
                    subdir := spec.name } :: graphs, r)

def gatherArchived (s : Settings) : List Target → Report Failure → Action Gathered
  | [], r => return ([], r)
  | t :: rest, r => do
      match unarchive s t (← get) with
      | .error e =>
          gatherArchived s rest
            (← decline "failed to read archived type graph" "target" t.label e r)
      | .ok data =>
          let (graphs, r) ← gatherArchived s rest r
          return ({ label := t.label, source := .data data, mode := t.mode } :: graphs, r)

/-- Emits the graphs of targets.  A cancelled run ends here. -/
def gatherEmitted (s : Settings) : List Target → Report Failure → Action (Gathered × Option Failure)
  | [], r => return (([], r), none)
  | t :: rest, r => do
      if (← get).isCancelled then return (([], r), some .cancelled)
      match ← Tool.emitGraph s.rustdoc.crate t with
      | .error e =>
          gatherEmitted s rest (← decline "failed to emit type graph" "target" t.label e r)
      | .ok path =>
          -- the graph is documented whether or not it could be archived
          if s.rustdoc.archive then archive s t path
          let ((graphs, r), e?) ← gatherEmitted s rest r
          return (({ label := t.label, source := .file path, mode := t.mode } :: graphs, r), e?)

/-- The graphs of a request. -/
def gather (s : Settings) (caps : Capabilities) (q : RustdocRequest) (r : Report Failure) :
    Action (Gathered × Option Failure) := do
  if !q.graphFiles.isEmpty || !q.crates.isEmpty then
    let (graphs, r) ← gatherCrates q.crates r
    return ((ofFiles s q.graphFiles ++ graphs, r), none)
  else if q.fromArchive then
    return (← gatherArchived s s.rustdoc.targets r, none)
  else
    match ← CargoRun.requirement? caps r with
    | some (r, e) => return (([], r), some e)
    | none => gatherEmitted s s.rustdoc.targets r

def run (s : Settings) (caps : Capabilities) (q : RustdocRequest) :
    Action (Report Failure × Option Failure) := do
  let ((graphs, r), e?) ← gather s caps q { kind := "rustdoc" }
  match e? with
  | some e => return (r, some e)
  | none => documentAll s [] graphs r

end RustdocRun
end ApiPages

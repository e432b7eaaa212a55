import ApiPages.Definition.Link
import ApiPages.Files.Glob
import ApiPages.Page.Schema
import ApiPages.Run.Report
import ApiPages.Schema.Stream
import ApiPages.Tool.Protoc

/-!
# Documenting definition files

One page for each definition file of a directory, written by a program where that works and by the
built-in reader otherwise.

* `ProtoRun.generate` documents one file;
* `ProtoRun.documentAll` goes through the files, where a failed file does not stop the others;
* `ProtoRun.run` finds the files, or leaves a placeholder if there is no directory.
-/

namespace ApiPages
namespace ProtoRun

/-- A page that was generated from one file. -/
structure Generated where
  name : String
  content : String
  /-- What generated it. -/
  source : String
  deriving DecidableEq, Repr

/-! ## One file -/

/-- Where a compiled file disagrees with what was read from it; nothing if it does not compile.  A
cancelled run compiles nothing. -/
def findings? (w : Workspace) (file : String) (schema : Schema) : Option (List Finding) :=
  if w.isCancelled then none
  else
    Definition.crossCheck? (fun path => w.files.text? (SlashPath.join [SlashPath.dir file, path]))
      (SlashPath.base file) schema

/-- Logs where the compiled file disagrees with what was read from it. -/
def crossCheck (file : String) (schema : Schema) : Action Unit := do
  match findings? (← get) file schema with
  | none =>
      Action.record .warn "cross-check skipped"
        [("file", .text file), ("error", .failure (.uncompiled (SlashPath.base file)))]
  | some findings =>
      findings.forM fun f =>
        Action.record .warn "cross-check"
          [("file", .text file), ("element", .text f.element), ("finding", .text f.message)]

/-- The schema in a file. -/
def schemaOf (files : FileTree) (file : String) : Except Failure Schema :=
  match files.read file with
  | .error e => .error (if e.reason == .isDirectory then .unread file e else .unopened file e)
  | .ok b =>
      match Schema.readStream? id b with
      | some schema => .ok schema
      | none => .error (.longLine file)

/-- Documents a file with the built-in reader. -/
def generateBuiltIn (s : Settings) (file : String) : Action (Except Failure Generated) := do
  let w ← get
  match schemaOf w.files file with
  | .error e => return .error e
  | .ok schema =>
      if s.proto.crossCheck then crossCheck file schema
      return .ok {
        name := SchemaPage.fileName file s.extension
        content := (SchemaPage.page file schema s.extension).content w.formats.headers
        source := "parser" }

/-- Documents a file, with a program if it is wanted and there. -/
def generate (s : Settings) (caps : Capabilities) (file : String) :
    Action (Except Failure Generated) := do
  if s.proto.useTool && caps.protoTool then
    match ← Tool.protocDocument file with
    | .ok document =>
        let headers := (← get).formats.headers
        return .ok {
          name := SchemaPage.fileName file s.extension
          content := FrontMatter.ensure headers document (SchemaPage.toolFrontMatter file)
          source := "protoc-gen-doc" }
    | .error e =>
        Action.record .warn "protoc-gen-doc failed, using built-in parser"
          [("file", .text file), ("error", .failure e)]
        generateBuiltIn s file
  else generateBuiltIn s file

/-! ## All files -/

/-- Documents files one after the other.  Only a page that cannot be written ends the run. -/
def documentAll (s : Settings) (caps : Capabilities) :
    List String → Report Failure → Action (Report Failure × Option Failure)
  | [], r => return (r, none)
  | file :: rest, r => do
      if (← get).isCancelled then return (r, some .cancelled)
      match ← generate s caps file with
      | .error e =>
          Action.record .error "failed to document proto file"
            [("file", .text file), ("error", .failure e)]
          documentAll s caps rest (r.add { input := file, failure? := some e })
      | .ok page =>
          match ← Action.writePage s.proto.outputDir page.name (.ofText page.content) with
          | some e => return (r, some e)
          | none =>
              Action.record .info "generated proto documentation"
                [("file", .text file), ("page", .text page.name), ("source", .text page.source)]
              documentAll s caps rest
                (r.add { input := file, source := page.source, pages := [page.name] })

/-- The definition files of a directory. -/
def inputs? (files : FileTree) (dir : String) : Option (List String) :=
  Glob.paths? files (SlashPath.join [dir, "*.proto"])

/-- Writes the page that stands for definitions that are not there. -/
def writePlaceholder (s : Settings) (r : Report Failure) :
    Action (Report Failure × Option Failure) := do
  let page := SchemaPage.placeholder s.extension
  let content := page.content (← get).formats.headers
  match ← Action.writePage s.proto.outputDir page.file (.ofText content) with
  | some e => return (r, some e)
  | none => return ({ r with placeholder := true }, none)

def run (s : Settings) (caps : Capabilities) : Action (Report Failure × Option Failure) := do
  let r : Report Failure := { kind := "proto" }
  let dir := s.proto.dir
  let files ← Action.files
  if files.isDir dir then
    -- the directory is part of the pattern, and its name may break it
    match inputs? files dir with
    | none => return (r, some (.badPattern dir))
    | some [] =>
        Action.record .warn "no .proto files found"
          [("dir", .text dir), ("error", .failure .noInput)]
        return (r, none)
    | some inputs => documentAll s caps inputs r
  else
    Action.record .warn "proto directory not found, writing placeholder"
      [("dir", .text dir), ("error", .failure .noInput)]
    writePlaceholder s r

end ProtoRun
end ApiPages

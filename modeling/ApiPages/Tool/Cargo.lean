import ApiPages.Run.Workspace
import ApiPages.Settings.Crate

/-!
# Documenting crates with cargo

* `Tool.emitGraph` has the type graph of one target emitted and moves it aside, so that the graph of
  the next target cannot overwrite it;
* `Tool.buildHtml` has the standard documentation built and copies it, with the crate's own folder
  under the crate's name.
-/

namespace ApiPages
namespace Tool

/-! ## Type graphs -/

def emissionArgs (c : Crate) (t : Target) : List String :=
  (if c.toolchain.isEmpty then [] else [c.toolchain]) ++ ["rustdoc"] ++
    (if t.isBinary then ["--bin", t.name] else ["--lib"]) ++
    ["--", "--output-format", "json", "-Z", "unstable-options", "--document-private-items"]

/-- Emits the type graph of a target and gives the path where it is kept. -/
def emitGraph (c : Crate) (t : Target) : Action (Except Failure String) := do
  let reply ← Action.call { dir := c.dir, name := "cargo", args := emissionArgs c t }
  match reply.fault? with
  | some fault => return .error (.tool (.emission t fault reply.output))
  | none =>
      let path := c.emittedPath t
      if (← Action.files).exists? path then
        match ← Action.change fun files => files.move path (c.keptPath t) with
        | some e => return .error (.tool (.unmovable e))
        | none => return .ok (c.keptPath t)
      else return .error (.tool (.noGraph path))

/-! ## Standard documentation -/

/-- The folder of a crate among the entries of the documentation directory. -/
def crateFolder? (c : Crate) (entries : List (String × FileNode)) : Option String :=
  (entries.find? fun e => e.2 == .dir && (e.1 == c.name || e.1 == c.graphName)).map (·.1)

/-- Replaces a directory by a copy of the documentation, its crate folder renamed. -/
def publish (c : Crate) (folder target : String) : Action (Option Failure) := do
  match ← Action.change fun t => t.removeAll target with
  | some e => return some (.unclean target e)
  | none =>
      -- from here on the old documentation is gone, whatever fails
      let (t, e?) := (← Action.files).copyAll c.docDir target
      Action.setFiles t
      match e? with
      | some e => return some (.uncopied e)
      | none =>
          if folder == c.name then return none
          else
            return (← Action.change fun t =>
              t.move (SlashPath.join [target, folder]) (SlashPath.join [target, c.name])).map
                .unrenamed

/-- Builds the documentation of a crate into a directory. -/
def buildHtml (c : Crate) (target : String) : Action (Option Failure) := do
  let reply ← Action.call { dir := c.dir, name := "cargo", args := ["doc", "--no-deps"] }
  match reply.fault? with
  | some fault => return some (.tool (.build fault reply.output))
  | none =>
      match (← Action.files).list? c.docDir with
      | none => return some (.tool (.noDocs c.docDir))
      | some entries =>
          match crateFolder? c entries with
          | none => return some (.tool (.noFolder c.name c.docDir))
          | some folder => publish c folder target

end Tool
end ApiPages

import ApiPages.Command.Execute
import ApiPages.Run.Standard
import ApiPages.Tool.Program

/-!
# The command

The outer layer: it reads the working directory, carries out the command line on it, and writes back
what has changed.  No programs are called and nothing is downloaded.
-/

namespace ApiPages
namespace Outer

/-- The variables that settings and directories depend on. -/
def variableNames : List String :=
  ["HOME", "TMPDIR", "XDG_CACHE_HOME", "XDG_CONFIG_HOME"] ++
    (Layers.addNames "" [] Settings.defaults).map Layers.variableOf

def readVariables (names : List String) : IO Environment := do
  let values ← names.mapM fun n => return (n, (← IO.getEnv n).getD "")
  return values.filter fun v => !v.2.isEmpty

/-- The files below the working directory; hidden directories are left out. -/
def readFiles : IO FileTree := do
  let here ← IO.currentDir
  let paths ← here.walkDir fun p => return !((p.fileName.getD "").startsWith ".")
  paths.foldlM
    (fun t p => do
      let name := Text.cutPrefix p.toString (here.toString ++ "/")
      if ← p.isDir then return (t.makeDirs name).toOption.getD t
      else
        let content ← IO.FS.readBinFile p
        return (t.save name content.toList).toOption.getD t)
    {}

/-- Brings the working directory from one state to another. -/
def writeChanges (old new : FileTree) : IO Unit := do
  for (p, n) in old.entries do
    if (new.node? p).isNone && n != .dir then IO.FS.removeFile p.path
  for (p, n) in new.entries do
    if old.node? p != some n then
      match n with
      | .dir => IO.FS.createDirAll p.path
      | .file b =>
          IO.FS.createDirAll p.parent.path
          IO.FS.writeBinFile p.path ⟨b.toArray⟩

/-- The variables a command line depends on, those that mark continuous integration included. -/
def environmentFor (args : List String) (files : FileTree) : IO Environment := do
  let env ← readVariables variableNames
  let file := match Arguments.splitWord? [] args with
    | some (_, rest) =>
        (Arguments.parse (CommandName.every.flatMap CommandName.flags) rest).map
          fun flags => Arguments.textOf flags "config"
    | none => none
  match Settings.load Formats.standard.settings (file.getD "") files.text? env [] with
  | .ok s => return env ++ (← readVariables s.ciVariables)
  | .error _ => return env

end Outer
end ApiPages

open ApiPages in
def main (args : List String) : IO UInt32 := do
  let files ← Outer.readFiles
  let space : Workspace := {
    files
    environment := ← Outer.environmentFor args files
    formats := .standard
    tools := Toolbox.ofPrograms fun _ => none
    web := fun _ => { status := 503, body := .ofText "unreachable" }
    scratch := ".scratch" }
  let (result, after) := (Command.execute args).run space
  Outer.writeChanges files after.files
  for r in after.log do IO.eprintln r.message
  IO.print result.stdout
  return UInt32.ofNat result.exit

import ApiPages.Run.Workspace

/-!
# Probing for programs

`Tool.probe` takes stock once: which programs are there, and whether any of the variables that mark
continuous integration is set.  Only cargo is called, since it may be installed and not work.
-/

namespace ApiPages
namespace Tool

def probe (ciVariables : List String) : Action Capabilities := do
  let reply ← Action.call { dir := "", name := "cargo", args := ["--version"] }
  let w ← get
  return {
    protoc := w.tools.isInstalled "protoc"
    protocGenDoc := w.tools.isInstalled "protoc-gen-doc"
    cargo := reply.fault?.isNone
    ci := w.environment.hasAny ciVariables }

end Tool
end ApiPages

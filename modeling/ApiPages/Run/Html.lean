import ApiPages.Run.Cargo
import ApiPages.Tool.Cargo

/-!
# Building the standard documentation

`HtmlRun.run` builds the crate's documentation and copies it into the public directory.
-/

namespace ApiPages
namespace HtmlRun

def run (s : Settings) (caps : Capabilities) : Action (Report Failure × Option Failure) := do
  let r : Report Failure := { kind := "html" }
  match ← CargoRun.requirement? caps r with
  | some (r, e) => return (r, some e)
  | none =>
      let target := s.html.outputDir
      match ← Tool.buildHtml s.rustdoc.crate target with
      | some e =>
          Action.record .error "failed to build rustdoc HTML" [("error", .failure e)]
          return (r.add { input := s.rustdoc.crateDir, failure? := some e }, none)
      | none =>
          Action.record .info "generated rustdoc HTML" [("dir", .text target)]
          return (r.add
            { input := s.rustdoc.crateDir, source := "cargo doc", pages := [target] }, none)

end HtmlRun
end ApiPages

import ApiPages.Run.Workspace
import ApiPages.Settings.Crate
import ApiPages.Text.Url

/-!
# Published type graphs

`Tool.fetchGraph` downloads the type graph of a published crate, which is served compressed.
-/

namespace ApiPages
namespace Tool

/-- How much of a refusal is quoted. -/
def quotedBytes : Nat := 1024

def graphUrl (registry : String) (spec : CrateSpec) : String :=
  Text.cutSuffix registry "/" ++ "/crate/" ++ spec.name ++ "/" ++ spec.version ++ "/json"

def fetchGraph (spec : CrateSpec) : Action (Except Failure Bytes) := do
  let w ← get
  let url := graphUrl w.registry spec
  match Url.normal url with
  | .error reason => return .error (.badUrl url reason)
  | .ok address =>
      let reply ← Action.request address
      if reply.status == 200 then
        match w.formats.packing.unpack? reply.body with
        | some graph => return .ok graph
        | none => return .error .compressedGraph
      else
        let body := Bytes.text (reply.body.take quotedBytes)
        return .error (.refused reply.status spec.name spec.version body)

end Tool
end ApiPages

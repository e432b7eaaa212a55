import ApiPages.Run.Report
import ApiPages.Run.Workspace

/-!
# Runs that need cargo

`CargoRun.requirement?` is the rule for a missing toolchain: in continuous integration the run is
skipped, anywhere else it fails.
-/

namespace ApiPages
namespace CargoRun

/-- The report and the failure with which a run ends for want of cargo. -/
def requirement? (caps : Capabilities) (r : Report Failure) :
    Action (Option (Report Failure × Failure)) := do
  if caps.cargo then return none
  else if caps.ci then
    Action.record .warn
      "cargo not available in CI, skipping; pre-generated docs should be committed"
      [("run", .text r.kind)]
    return some ({ r with skipped := true }, .skippedInCI)
  else return some (r, .noCargo)

end CargoRun
end ApiPages

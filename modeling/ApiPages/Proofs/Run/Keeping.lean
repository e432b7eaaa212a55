import ApiPages.Proofs.Run.Accounts
import ApiPages.Proofs.Run.Turns
import ApiPages.Run.Html

/-!
# Runs keep their setting

Whatever a run does, it changes files and adds to the log, and leaves the rest of the workspace as
it was.  The lemmas here follow the programs of the runs, one for each of their parts:

* `ProtoRun.keeps_run` for definition files;
* `RustdocRun.keeps_gather`, `RustdocRun.keeps_documentAll` and `RustdocRun.keeps_run` for type
  graphs;
* `HtmlRun.keeps_run` for the standard documentation.
-/

namespace ApiPages

theorem CargoRun.keeps_requirement (caps : Capabilities) (r : Report Failure) :
    Action.Keeps (CargoRun.requirement? caps r) := by
  unfold CargoRun.requirement?
  split
  · exact Action.keeps_pure _
  · split
    · exact (Action.keeps_record _ _ _).bind fun _ => Action.keeps_pure _
    · exact Action.keeps_pure _

/-! ## Definition files -/

namespace ProtoRun

theorem keeps_run (s : Settings) (caps : Capabilities) : Action.Keeps (run s caps) := by
  unfold run
  refine Action.keeps_files.bind fun files => ?_
  split
  · split
    · exact Action.keeps_pure _
    · exact (Action.keeps_record _ _ _).bind fun _ => Action.keeps_pure _
    · exact keeps_documentAll _ _ _ _
  · refine (Action.keeps_record _ _ _).bind fun _ => ?_
    refine Action.keeps_get.bind fun w => (Action.keeps_writePage _ _ _).bind fun e? => ?_
    split <;> exact Action.keeps_pure _

end ProtoRun

/-! ## Type graphs -/

namespace RustdocRun

theorem keeps_decline (message key input : String) (e : Failure) (r : Report Failure) :
    Action.Keeps (decline message key input e r) :=
  (Action.keeps_record _ _ _).bind fun _ => Action.keeps_pure _

theorem keeps_gatherCrates (texts : List String) (r : Report Failure) :
    Action.Keeps (gatherCrates texts r) := by
  induction texts generalizing r with
  | nil =>
      exact Action.keeps_pure _
  | cons text rest ih =>
      rw [gatherCrates]
      refine (keeps_fetchGraph _).bind fun result => ?_
      split
      · exact (keeps_decline _ _ _ _ _).bind fun _ => ih _
      · exact (ih _).bind fun _ => Action.keeps_pure _

theorem keeps_gatherArchived (s : Settings) (targets : List Target) (r : Report Failure) :
    Action.Keeps (gatherArchived s targets r) := by
  induction targets generalizing r with
  | nil =>
      exact Action.keeps_pure _
  | cons t rest ih =>
      rw [gatherArchived_cons]
      refine Action.keeps_get.bind fun w => ?_
      split
      · exact (keeps_decline _ _ _ _ _).bind fun _ => ih _
      · exact (ih _).bind fun _ => Action.keeps_pure _

theorem keeps_gatherEmitted (s : Settings) (targets : List Target) (r : Report Failure) :
    Action.Keeps (gatherEmitted s targets r) := by
  induction targets generalizing r with
  | nil =>
      exact Action.keeps_pure _
  | cons t rest ih =>
      rw [gatherEmitted]
      refine Action.keeps_get.bind fun w => ?_
      split
      · exact Action.keeps_pure _
      · refine (keeps_emitGraph _ _).bind fun result => ?_
        split
        · exact (keeps_decline _ _ _ _ _).bind fun _ => ih _
        · dsimp only
          split
          · exact (keeps_archive _ _ _).bind fun _ => (ih _).bind fun _ => Action.keeps_pure _
          · exact (ih _).bind fun _ => Action.keeps_pure _

theorem keeps_gather (s : Settings) (caps : Capabilities) (q : RustdocRequest)
    (r : Report Failure) :
    Action.Keeps (gather s caps q r) := by
  unfold gather
  split
  · exact (keeps_gatherCrates _ _).bind fun _ => Action.keeps_pure _
  · split
    · exact (keeps_gatherArchived _ _ _).bind fun _ => Action.keeps_pure _
    · refine (CargoRun.keeps_requirement _ _).bind fun refused => ?_
      split
      · exact Action.keeps_pure _
      · exact keeps_gatherEmitted _ _ _

theorem keeps_writeAll (s : Settings) (label : String) (written : Written) (pages : List Page) :
    Action.Keeps (writeAll s label written pages) := by
  induction pages generalizing written with
  | nil =>
      exact Action.keeps_pure _
  | cons p rest ih =>
      -- a page is written whether or not a note about it goes first
      have hwrite : Action.Keeps (writeUnnoted s label written p rest) := by
        refine Action.keeps_get.bind fun w => (Action.keeps_writePage _ _ _).bind fun e? => ?_
        split
        · exact Action.keeps_pure _
        · exact ih _
      rw [writeAll]
      dsimp only
      split
      · exact (Action.keeps_record _ _ _).bind fun _ => hwrite
      · exact hwrite

theorem keeps_documentAll (s : Settings) (written : Written) (graphs : List GraphInput)
    (r : Report Failure) : Action.Keeps (documentAll s written graphs r) := by
  induction graphs generalizing written r with
  | nil =>
      exact Action.keeps_pure _
  | cons g rest ih =>
      rw [documentAll]
      refine Action.keeps_get.bind fun w => ?_
      split
      · exact Action.keeps_pure _
      · -- documenting a graph only adds to the log
        have hgenerate : Action.Keeps (generate s g) := by
          intro w
          rcases run_generate s g w with ⟨log, hrun⟩
          rw [hrun]
          exact w.sameSetting_with ..
        refine hgenerate.bind fun result => ?_
        split
        · exact (Action.keeps_record _ _ _).bind fun _ => ih _ _
        · refine (keeps_writeAll _ _ _ _).bind fun result => ?_
          split
          · exact Action.keeps_pure _
          · exact (Action.keeps_record _ _ _).bind fun _ => ih _ _

theorem keeps_run (s : Settings) (caps : Capabilities) (q : RustdocRequest) :
    Action.Keeps (run s caps q) := by
  unfold run
  refine (keeps_gather _ _ _ _).bind fun gathered => ?_
  split
  split
  · exact Action.keeps_pure _
  · exact keeps_documentAll _ _ _ _

end RustdocRun

/-! ## Standard documentation -/

namespace HtmlRun

theorem keeps_publish (c : Crate) (folder target : String) :
    Action.Keeps (Tool.publish c folder target) := by
  unfold Tool.publish
  refine (Action.keeps_change _).bind fun e? => ?_
  split
  · exact Action.keeps_pure _
  · refine Action.keeps_files.bind fun files => ?_
    split
    refine (Action.keeps_setFiles _).bind fun _ => ?_
    split
    · exact Action.keeps_pure _
    · split
      · exact Action.keeps_pure _
      · exact (Action.keeps_change _).bind fun _ => Action.keeps_pure _

theorem keeps_buildHtml (c : Crate) (target : String) : Action.Keeps (Tool.buildHtml c target) := by
  unfold Tool.buildHtml
  refine (Action.keeps_call _).bind fun reply => ?_
  split
  · exact Action.keeps_pure _
  · refine Action.keeps_files.bind fun files => ?_
    split
    · exact Action.keeps_pure _
    · split
      · exact Action.keeps_pure _
      · exact keeps_publish _ _ _

theorem keeps_run (s : Settings) (caps : Capabilities) : Action.Keeps (run s caps) := by
  unfold run
  refine (CargoRun.keeps_requirement _ _).bind fun refused => ?_
  split
  · exact Action.keeps_pure _
  · dsimp only
    refine (keeps_buildHtml _ _).bind fun e? => ?_
    split <;> exact (Action.keeps_record _ _ _).bind fun _ => Action.keeps_pure _

end HtmlRun

end ApiPages

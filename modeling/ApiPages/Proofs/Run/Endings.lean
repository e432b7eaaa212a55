import ApiPages.Proofs.Run.Discovery
import ApiPages.Proofs.Run.Keeping

/-!
# How runs end

A run has an outcome for each of its inputs, unless it ends earlier: at a page that cannot be saved,
or before it has begun if it needs cargo and there is none.

* `ProtoRun.Loses` and `RustdocRun.LosesPage` say, on the pages alone, that a run comes to a page
  that cannot be saved; `ProtoRun.documentAll_ends` and `RustdocRun.documentAll_ends` say that
  nothing else ends it;
* `RustdocRun.gather_divides` divides the inputs of a request between graphs and failures, whatever
  cargo does to the files;
* `Job` is a run of any kind, and `Job.ends_run` says in which ways it ends.
-/

namespace ApiPages

open SlashPath

/-! ## Runs without cargo -/

/-- The report and the failure of a run that has no cargo and needs it. -/
def CargoRun.refusal (caps : Capabilities) (r : Report Failure) : Report Failure × Failure :=
  if caps.ci then ({ r with skipped := true }, .skippedInCI) else (r, .noCargo)

theorem CargoRun.run_requirement_met {caps : Capabilities} (hcargo : caps.cargo = true)
    (r : Report Failure) (w : Workspace) : (requirement? caps r).run w = (none, w) := by
  unfold requirement?
  rw [hcargo, if_pos rfl, Action.run_pure]

theorem CargoRun.run_requirement_refused {caps : Capabilities} (hcargo : caps.cargo = false)
    (r : Report Failure) (w : Workspace) :
    ((requirement? caps r).run w).1 = some (refusal caps r) := by
  unfold requirement? refusal
  rw [hcargo, if_neg Bool.false_ne_true]
  split <;> rfl

/-! ## Definition files -/

namespace ProtoRun

variable {s : Settings} {caps : Capabilities} {w : Workspace} {files : List String}
  {r : Report Failure}

/-- When one of the files has its turn, its page cannot be saved. -/
def Loses (s : Settings) (caps : Capabilities) (w : Workspace) (files : List String) : Prop :=
  ∃ before file after page e, files = before ++ file :: after ∧
    ((documentAll s caps before { kind := "proto" }).run w).1.2 = none ∧
    generated s caps file (turn s caps w before) = .ok page ∧
    (tried s caps file (turn s caps w before)).files.save (pagePath s file) (.ofText page.content) =
      .error e

theorem Step.saved {file : String} {r₁ : Report Failure} {w₁ : Workspace} {page : Generated}
    (h : Step s caps file r w r₁ w₁) (hgenerated : generated s caps file w = .ok page) :
    (tried s caps file w).files.save (pagePath s file) (.ofText page.content) = .ok w₁.files := by
  have hfiles := h.files
  rw [hgenerated] at hfiles
  exact hfiles

/-- A run that is not cancelled and does not get to its last file ends at a page that cannot be
saved. -/
theorem exists_lost (hgoing : w.isCancelled = false)
    (h : ((documentAll s caps files r).run w).1.2 ≠ none) :
    ∃ before file after page e, files = before ++ file :: after ∧
      ((documentAll s caps before r).run w).1.2 = none ∧
      generated s caps file ((documentAll s caps before r).run w).2 = .ok page ∧
      (tried s caps file ((documentAll s caps before r).run w).2).files.save (pagePath s file)
        (.ofText page.content) = .error e ∧
      ((documentAll s caps files r).run w).1.2 = some (.write (pagePath s file) e) := by
  induction files generalizing r w with
  | nil =>
      exact absurd rfl h
  | cons file rest ih =>
      rcases documentAll_turn s caps file r hgoing with
        ⟨page, e, hgenerated, hsave, hends⟩ | ⟨r₁, w₁, hturn, hstep⟩
      · exact ⟨[], file, rest, page, e, rfl, rfl, hgenerated, hsave, by rw [hends]⟩
      · rw [hstep] at h ⊢
        rcases ih (hturn.setting.isCancelled.trans hgoing) h with
          ⟨before, file', after, page, e, rfl, hbefore, hgenerated, hsave, hends⟩
        refine ⟨file :: before, file', after, page, e, rfl, ?_, ?_, ?_, hends⟩ <;> rw [hstep]
        · exact hbefore
        · exact hgenerated
        · exact hsave

/-- A run that is not cancelled gets to its last file, unless it loses a page. -/
theorem documentAll_ends (hgoing : w.isCancelled = false) :
    (Loses s caps w files ∧
      ∃ path e, ((documentAll s caps files { kind := "proto" }).run w).1.2 = some (.write path e)) ∨
    (¬ Loses s caps w files ∧
      ((documentAll s caps files { kind := "proto" }).run w).1.2 = none) := by
  by_cases hdone : ((documentAll s caps files { kind := "proto" }).run w).1.2 = none
  · refine Or.inr ⟨?_, hdone⟩
    rintro ⟨before, file, after, page, e, rfl, -, hgenerated, hsave⟩
    rcases documentAll_append hdone with ⟨r₁, hbefore, hrest⟩
    have hsetting : w.SameSetting (turn s caps w before) := keeps_documentAll s caps before _ w
    change _ = (documentAll s caps (file :: after) r₁).run (turn s caps w before) at hrest
    -- the run is at the file with the page, and that page ends it
    rcases documentAll_turn s caps file r₁ (hsetting.isCancelled.trans hgoing) with
      ⟨page', e', -, -, hends⟩ | ⟨r₂, w₂, hturn, -⟩
    · rw [hrest, hends] at hdone
      cases hdone
    · rw [hturn.saved hgenerated] at hsave
      cases hsave
  · rcases exists_lost hgoing hdone with
      ⟨before, file, after, page, e, hfiles, hbefore, hgenerated, hsave, hends⟩
    exact Or.inl ⟨⟨before, file, after, page, e, hfiles, hbefore, hgenerated, hsave⟩, _, e, hends⟩

/-- A page of the run cannot be saved: that of a file at its turn, or the one that stands for the
missing directory. -/
def LosesPage (s : Settings) (caps : Capabilities) (w : Workspace) : Prop :=
  if w.files.isDir s.proto.dir then Loses s caps w ((inputs? w.files s.proto.dir).getD [])
  else
    let page := SchemaPage.placeholder s.extension
    let content := page.content w.formats.headers
    ∃ e, w.files.save (page.pathIn s.proto.outputDir) (.ofText content) = .error e

/-- The page that stands for a missing directory is written, or it cannot be saved. -/
theorem writePlaceholder_cases (s : Settings) (r : Report Failure) (w : Workspace) :
    let page := SchemaPage.placeholder s.extension
    let path := page.pathIn s.proto.outputDir
    let content : Bytes := .ofText (page.content w.formats.headers)
    (∃ e, w.files.save path content = .error e ∧
      ((writePlaceholder s r).run w).1 = (r, some (.write path e))) ∨
    ∃ t, w.files.save path content = .ok t ∧
      ((writePlaceholder s r).run w).1 = ({ r with placeholder := true }, none) := by
  intro page path content
  unfold writePlaceholder
  dsimp only
  rw [Action.run_bind, Action.run_get]
  dsimp only
  rw [Action.run_bind]
  cases hsave : w.files.save path content with
  | error e =>
      rw [Action.run_writePage_error hsave]
      exact Or.inl ⟨e, rfl, rfl⟩
  | ok t =>
      rw [Action.run_writePage_ok hsave]
      exact Or.inr ⟨t, rfl, rfl⟩

theorem exists_inputs (hdir : w.files.isDir s.proto.dir = true)
    (hplain : Glob.hasMeta s.proto.dir = false) :
    ∃ files, inputs? w.files s.proto.dir = some files := by
  have hne : s.proto.dir ≠ "" := by
    intro hempty
    rw [hempty] at hdir
    cases hdir
  exact ⟨_, Glob.paths?_join hne (Glob.hasMeta_clean hplain) isName_pattern rfl pattern?_ending⟩

/-- The definition files that are there at the beginning of a run. -/
def inputsIn (s : Settings) (w : Workspace) : List String :=
  if w.files.isDir s.proto.dir then (inputs? w.files s.proto.dir).getD [] else []

end ProtoRun

/-! ## Type graphs -/

namespace Page

variable {f : HeaderFormat} {dir : String} {t t₁ : FileTree} {p : Page} {rest : List Page}
  {e : OsError}

theorem saveAll_cons_of_error (h : t.save (p.pathIn dir) (p.bytes f) = .error e) :
    saveAll f dir t (p :: rest) = .error e := by
  rw [saveAll, List.foldlM_cons, h]
  rfl

theorem saveAll_cons_of_ok (h : t.save (p.pathIn dir) (p.bytes f) = .ok t₁) :
    saveAll f dir t (p :: rest) = saveAll f dir t₁ rest := by
  rw [saveAll, List.foldlM_cons, h]
  rfl

end Page

theorem Page.saveAll_append (f : HeaderFormat) (dir : String) (t : FileTree)
    (pages rest : List Page) :
    Page.saveAll f dir t (pages ++ rest) =
      (Page.saveAll f dir t pages).bind fun t₁ => Page.saveAll f dir t₁ rest :=
  List.foldlM_append ..

namespace RustdocRun

variable {s : Settings} {caps : Capabilities} {q : RustdocRequest} {w : Workspace}
  {graphs : List GraphInput} {written : Written} {r : Report Failure}

/-- Writing pages fails only with one of them that cannot be saved. -/
theorem saveAll_of_writeAll {label : String} {pages : List Page} {e : Failure}
    (h : ((writeAll s label written pages).run w).1 = .error e) :
    ∃ e', Page.saveAll w.formats.headers s.rustdoc.outputDir w.files pages = .error e' := by
  induction pages generalizing written w with
  | nil =>
      cases h
  | cons p rest ih =>
      rcases writeAll_step s label written p rest w with
        ⟨e', log, hsave, -⟩ | ⟨t, log, hsave, hstep⟩
      · exact ⟨e', Page.saveAll_cons_of_error hsave⟩
      · rw [hstep] at h
        rw [Page.saveAll_cons_of_ok hsave]
        exact ih h

/-- A run that is not cancelled and cannot write a page cannot save the pages of its graphs. -/
theorem exists_unsaved {path : String} {e : OsError} (hgoing : w.isCancelled = false)
    (h : ((documentAll s written graphs r).run w).1.2 = some (.write path e)) :
    ∃ e', Page.saveAll w.formats.headers s.rustdoc.outputDir w.files
      (pagesIn (renderings w.formats s w.files graphs)) = .error e' := by
  induction graphs generalizing written r w with
  | nil =>
      cases h
  | cons g rest ih =>
      rcases run_documentAll_cons hgoing written g rest r with ⟨log, hstep⟩
      rw [hstep] at h
      rw [renderings]
      cases hrendering : rendering w.formats s w.files g with
      | error e' =>
          rw [hrendering, finish, Action.run_bind, Action.run_record] at h
          have hrest := ih (by exact hgoing) h
          exact hrest
      | ok result =>
          rw [hrendering, finish, Action.run_bind] at h
          rw [pagesIn, List.flatMap_cons, Page.saveAll_append]
          have hcases := writeAll_cases s g.label written result.pages { w with log }
          have hfails : ∀ e', ((writeAll s g.label written result.pages).run { w with log }).1 =
              .error e' → ∃ e'', Page.saveAll w.formats.headers s.rustdoc.outputDir w.files
                result.pages = .error e'' :=
            fun e' herror => saveAll_of_writeAll (w := { w with log }) herror
          generalize (writeAll s g.label written result.pages).run { w with log } = done
            at h hcases hfails
          rcases done with ⟨outcome, w₁⟩
          rcases hcases with ⟨path', e', rfl⟩ | ⟨⟨written', rfl⟩, hsetting, hsaved⟩
          · rcases hfails _ rfl with ⟨e'', hunsaved⟩
            dsimp only at hunsaved ⊢
            rw [hunsaved]
            exact ⟨e'', rfl⟩
          · dsimp only at h hsaved ⊢
            rw [Action.run_bind, Action.run_record] at h
            have hformats : w.formats = w₁.formats := hsetting.formats.symm
            have hrest := ih (by exact hsetting.isCancelled.trans hgoing) h
            rw [hsaved, afterPages, hsaved, hformats]
            exact hrest

/-- A run that is not cancelled documents all graphs, or it ends with a page that cannot be
written. -/
theorem documentAll_ends (hgoing : w.isCancelled = false) :
    ((∃ path e, ((documentAll s written graphs r).run w).1.2 = some (.write path e)) ∧
      ∃ e, Page.saveAll w.formats.headers s.rustdoc.outputDir w.files
        (pagesIn (renderings w.formats s w.files graphs)) = .error e) ∨
      Documents s graphs r w ((documentAll s written graphs r).run w) := by
  by_cases hwrite : ∃ path e, ((documentAll s written graphs r).run w).1.2 = some (.write path e)
  · rcases hwrite with ⟨path, e, hend⟩
    exact Or.inl ⟨⟨path, e, hend⟩, exists_unsaved hgoing hend⟩
  · exact Or.inr (documents hgoing fun path e hend => hwrite ⟨path, e, hend⟩)

/-- The pages of the run's graphs, as they are rendered one after the other, cannot all be saved. -/
def LosesPage (s : Settings) (caps : Capabilities) (q : RustdocRequest) (w : Workspace) : Prop :=
  ∃ e, Page.saveAll w.formats.headers s.rustdoc.outputDir (gathered s caps q w).2
    (pagesIn (results s caps q w)) = .error e

/-! ### Gathering -/

/-- The inputs are divided between graphs and failures, which are added to the report. -/
def Divides (inputs : List String) (r : Report Failure) (graphs : List GraphInput)
    (r' : Report Failure) : Prop :=
  ∃ failed, Shares inputs graphs failed ∧ r' = { r with outcomes := r.outcomes ++ failed }

theorem Divides.graph {inputs : List String} {r' : Report Failure} (h : Divides inputs r graphs r')
    {g : GraphInput} {label : String} (hlabel : g.label = label) :
    Divides (label :: inputs) r (g :: graphs) r' := by
  subst hlabel
  rcases h with ⟨failed, hshares, hreport⟩
  exact ⟨failed, hshares.graph g, hreport⟩

theorem divides_emitted (hgoing : w.isCancelled = false) (targets : List Target)
    (r : Report Failure) :
    ((gatherEmitted s targets r).run w).1.2 = none ∧
      Divides (targets.map Target.label) r ((gatherEmitted s targets r).run w).1.1.1
        ((gatherEmitted s targets r).run w).1.1.2 := by
  induction targets generalizing r w with
  | nil =>
      exact ⟨rfl, [], .nil, by rw [List.append_nil]; rfl⟩
  | cons t rest ih =>
      have hemit := keeps_emitGraph s.rustdoc.crate t w
      unfold gatherEmitted
      rw [Action.run_bind, Action.run_get]
      dsimp only
      rw [hgoing, if_neg Bool.false_ne_true, Action.run_bind]
      cases ((Tool.emitGraph s.rustdoc.crate t).run w).1 with
      | error e =>
          have hdecline := keeps_decline "failed to emit type graph" "target" t.label e r
            ((Tool.emitGraph s.rustdoc.crate t).run w).2
          rcases ih ((hemit.trans hdecline).isCancelled.trans hgoing)
            (r.add { input := t.label, failure? := some e }) with ⟨hnone, failed, hshares, hreport⟩
          dsimp only
          rw [Action.run_bind, run_decline]
          refine ⟨hnone, _, hshares.failure t.label e, ?_⟩
          rw [hreport, Report.add, List.append_assoc, List.singleton_append]
      | ok path =>
          dsimp only
          split
          · have harchive := keeps_archive s t path ((Tool.emitGraph s.rustdoc.crate t).run w).2
            rcases ih ((hemit.trans harchive).isCancelled.trans hgoing) r with ⟨hnone, hdivides⟩
            rw [Action.run_bind, Action.run_bind, Action.run_pure]
            exact ⟨hnone, hdivides.graph rfl⟩
          · rcases ih (hemit.isCancelled.trans hgoing) r with ⟨hnone, hdivides⟩
            rw [Action.run_bind, Action.run_pure]
            exact ⟨hnone, hdivides.graph rfl⟩

/-- What is gathered for a request that needs cargo: the graphs of the configured targets. -/
def gatherTargets (s : Settings) (caps : Capabilities) (r : Report Failure) :
    Action (Gathered × Option Failure) := do
  match ← CargoRun.requirement? caps r with
  | some (r, e) => return (([], r), some e)
  | none => gatherEmitted s s.rustdoc.targets r

theorem gather_of_needsCargo (s : Settings) (caps : Capabilities) (hneeds : q.needsCargo = true)
    (r : Report Failure) : q.inputs s = s.rustdoc.targets.map Target.label ∧
      gather s caps q r = gatherTargets s caps r := by
  rw [RustdocRequest.needsCargo, Bool.and_eq_true, Bool.not_eq_true'] at hneeds
  rcases hneeds with ⟨hempty, harchive⟩
  refine ⟨if_pos hempty, ?_⟩
  unfold gather
  rw [← Bool.not_and, hempty, harchive]
  rfl

/-- Without the cargo that it needs, a run gathers nothing. -/
theorem gather_refused (hneeds : q.needsCargo = true) (hcargo : caps.cargo = false)
    (r : Report Failure) (w : Workspace) : ((gather s caps q r).run w).1 =
      (([], (CargoRun.refusal caps r).1), some (CargoRun.refusal caps r).2) := by
  rw [(gather_of_needsCargo s caps hneeds r).2, gatherTargets, Action.run_bind,
    CargoRun.run_requirement_refused hcargo]
  rfl

/-- With cargo, if it is needed, a run that is not cancelled divides its inputs. -/
theorem gather_divides (hgoing : w.isCancelled = false)
    (hcargo : q.needsCargo = true → caps.cargo = true) (r : Report Failure) :
    ((gather s caps q r).run w).1.2 = none ∧
      Divides (q.inputs s) r ((gather s caps q r).run w).1.1.1
        ((gather s caps q r).run w).1.1.2 := by
  cases hneeds : q.needsCargo with
  | false =>
      have hapart : q.needsCargo = true → Apart s w [] := by
        rw [hneeds]
        exact Bool.noConfusion
      rcases gather_spec hgoing hcargo hapart r with ⟨hnone, hgathers⟩
      exact ⟨hnone, hgathers.shares⟩
  | true =>
      rcases gather_of_needsCargo s caps hneeds r with ⟨hinputs, hgather⟩
      rw [hgather, hinputs, gatherTargets, Action.run_bind,
        CargoRun.run_requirement_met (hcargo hneeds)]
      exact divides_emitted hgoing s.rustdoc.targets r

end RustdocRun

/-! ## Runs of all kinds -/

/-- What a run is for. -/
inductive Job where
  | proto
  | rustdoc (request : RustdocRequest)
  | html
  deriving DecidableEq, Repr

namespace Job

def run (s : Settings) (caps : Capabilities) : Job → Action (Report Failure × Option Failure)
  | proto => ProtoRun.run s caps
  | rustdoc request => RustdocRun.run s caps request
  | html => HtmlRun.run s caps

def needsCargo : Job → Bool
  | proto => false
  | rustdoc request => request.needsCargo
  | html => true

/-- What is to be documented. -/
def inputs (s : Settings) (w : Workspace) : Job → List String
  | proto => ProtoRun.inputsIn s w
  | rustdoc request => request.inputs s
  | html => [s.rustdoc.crateDir]

/-- A page of the run cannot be saved; the standard documentation is no row of pages. -/
def LosesPage (s : Settings) (caps : Capabilities) (w : Workspace) : Job → Prop
  | proto => ProtoRun.LosesPage s caps w
  | rustdoc request => RustdocRun.LosesPage s caps request w
  | html => False

theorem keeps_run (s : Settings) (caps : Capabilities) (job : Job) :
    Action.Keeps (job.run s caps) := by
  cases job with
  | proto =>
      exact ProtoRun.keeps_run s caps
  | rustdoc request =>
      exact RustdocRun.keeps_run s caps request
  | html =>
      exact HtmlRun.keeps_run s caps

/-- How a run ends: with an outcome for each input, at a page that cannot be saved, or, before it
has begun, for want of cargo. -/
inductive Ends (s : Settings) (caps : Capabilities) (w : Workspace) (job : Job)
    (r : Report Failure) :
    Option Failure → Prop where
  | completed : ¬ job.LosesPage s caps w → (job.needsCargo = true → caps.cargo = true) →
      (r.outcomes.map Outcome.input).Perm (job.inputs s w) → Ends s caps w job r none
  | lost (path : String) (e : OsError) : job.LosesPage s caps w →
      Ends s caps w job r (some (.write path e))
  | refused : ¬ job.LosesPage s caps w → job.needsCargo = true → caps.cargo = false →
      caps.ci = false → r.outcomes = [] → Ends s caps w job r (some .noCargo)
  | skipped : ¬ job.LosesPage s caps w → job.needsCargo = true → caps.cargo = false →
      caps.ci = true → r.outcomes = [] → Ends s caps w job r (some .skippedInCI)

variable {s : Settings} {caps : Capabilities} {w : Workspace}

theorem ends_proto (hgoing : w.isCancelled = false) (hplain : Glob.hasMeta s.proto.dir = false) :
    Ends s caps w proto ((ProtoRun.run s caps).run w).1.1 ((ProtoRun.run s caps).run w).1.2 := by
  cases hdir : w.files.isDir s.proto.dir with
  | true =>
      rcases ProtoRun.exists_inputs hdir hplain with ⟨files, hfiles⟩
      have hinputs : inputs s w proto = files := by
        rw [inputs, ProtoRun.inputsIn, if_pos hdir, hfiles, Option.getD_some]
      have hloses : LosesPage s caps w proto ↔ ProtoRun.Loses s caps w files := by
        rw [LosesPage, ProtoRun.LosesPage, if_pos hdir, hfiles, Option.getD_some]
      rw [(ProtoRun.run_dir s caps hdir hfiles).1]
      rcases ProtoRun.documentAll_ends hgoing with ⟨hlost, path, e, hend⟩ | ⟨hkept, hdone⟩
      · rw [hend]
        exact .lost path e (hloses.2 hlost)
      · rcases ProtoRun.outcomes_documentAll hdone with ⟨outcomes, hall, hreported⟩
        rw [hdone]
        refine .completed (mt hloses.1 hkept) (fun h => by cases h) ?_
        rw [hall, hinputs, ← hreported]
        exact List.Perm.refl _
  | false =>
      have hinputs : inputs s w proto = [] := by
        rw [inputs, ProtoRun.inputsIn, hdir, if_neg Bool.false_ne_true]
      have hloses : LosesPage s caps w proto ↔ ∃ e, w.files.save
          ((SchemaPage.placeholder s.extension).pathIn s.proto.outputDir)
          (.ofText ((SchemaPage.placeholder s.extension).content w.formats.headers)) =
            .error e := by
        rw [LosesPage, ProtoRun.LosesPage, hdir, if_neg Bool.false_ne_true]
      rw [ProtoRun.run_missing hdir, Action.run_record]
      rcases ProtoRun.writePlaceholder_cases s { kind := "proto" } { w with log := _ } with
        ⟨e, hsave, hrun⟩ | ⟨t, hsave, hrun⟩
      · rw [hrun]
        exact .lost _ e (hloses.2 ⟨e, hsave⟩)
      · rw [hrun]
        refine .completed (mt hloses.1 ?_) (fun h => by cases h) ?_
        · rintro ⟨e, hlost⟩
          cases hsave.symm.trans hlost
        · rw [hinputs]
          exact List.Perm.refl _

theorem ends_refusal {job : Job} (hkept : ¬ job.LosesPage s caps w) (hneeds : job.needsCargo = true)
    (hcargo : caps.cargo = false) (kind : String) :
    Ends s caps w job (CargoRun.refusal caps { kind }).1
      (some (CargoRun.refusal caps { kind }).2) := by
  unfold CargoRun.refusal
  cases hci : caps.ci with
  | true =>
      exact .skipped hkept hneeds hcargo hci rfl
  | false =>
      exact .refused hkept hneeds hcargo hci rfl

theorem ends_rustdoc (hgoing : w.isCancelled = false) (q : RustdocRequest) :
    Ends s caps w (rustdoc q) ((RustdocRun.run s caps q).run w).1.1
      ((RustdocRun.run s caps q).run w).1.2 := by
  by_cases hcargo : q.needsCargo = true → caps.cargo = true
  · rcases RustdocRun.gather_divides hgoing hcargo { kind := "rustdoc" } with
      ⟨hnone, failed, hshares, hreport⟩
    have hrun : (RustdocRun.run s caps q).run w =
        (RustdocRun.documentAll s [] (RustdocRun.gathered s caps q w).1
          { kind := "rustdoc", outcomes := failed }).run
            ((RustdocRun.gather s caps q { kind := "rustdoc" }).run w).2 := by
      have hgathered : ((RustdocRun.gather s caps q { kind := "rustdoc" }).run w).1 =
          (((RustdocRun.gathered s caps q w).1, { kind := "rustdoc", outcomes := failed }), none) :=
        Prod.ext (Prod.ext rfl hreport) hnone
      unfold RustdocRun.run
      rw [Action.run_bind, hgathered]
    have hsetting := RustdocRun.keeps_gather s caps q { kind := "rustdoc" } w
    have hformats := hsetting.formats
    rw [hrun]
    rcases RustdocRun.documentAll_ends (hsetting.isCancelled.trans hgoing) with
      ⟨⟨path, e, hend⟩, hlost⟩ | ⟨hdone, hreported, hsaved⟩
    · rw [hformats] at hlost
      rw [hend]
      exact .lost path e hlost
    · rw [hformats] at hsaved
      rw [hdone]
      refine .completed ?_ hcargo ?_
      · rintro ⟨e, hlost⟩
        cases hsaved.symm.trans hlost
      · -- what was gathered has the failures in front, documenting adds one outcome for each graph
        rw [hreported, List.map_append, RustdocRun.map_input_outcomes]
        exact hshares.perm
  · have hneeds : q.needsCargo = true := by
      by_contra hfree
      exact hcargo fun h => absurd h hfree
    have hnone : caps.cargo = false := Bool.eq_false_iff.2 fun h => hcargo fun _ => h
    have hgather := RustdocRun.gather_refused (s := s) hneeds hnone { kind := "rustdoc" } w
    have hkept : ¬ LosesPage s caps w (rustdoc q) := by
      rintro ⟨e', hlost⟩
      rw [RustdocRun.results, RustdocRun.gathered, hgather] at hlost
      cases hlost
    unfold RustdocRun.run
    rw [Action.run_bind, hgather]
    exact ends_refusal hkept hneeds hnone "rustdoc"

theorem ends_html :
    Ends s caps w html ((HtmlRun.run s caps).run w).1.1 ((HtmlRun.run s caps).run w).1.2 := by
  unfold HtmlRun.run
  dsimp only
  rw [Action.run_bind]
  cases hcargo : caps.cargo with
  | false =>
      rw [CargoRun.run_requirement_refused hcargo]
      exact ends_refusal id rfl hcargo "html"
  | true =>
      rw [CargoRun.run_requirement_met hcargo]
      dsimp only
      rw [Action.run_bind]
      split
      · exact .completed id (fun _ => hcargo) (List.Perm.refl _)
      · exact .completed id (fun _ => hcargo) (List.Perm.refl _)

/-- A run that is not cancelled and has a plain directory for definition files ends in one of these
ways. -/
theorem ends_run (caps : Capabilities) (hgoing : w.isCancelled = false)
    (hplain : Glob.hasMeta s.proto.dir = false) (job : Job) :
    Ends s caps w job ((job.run s caps).run w).1.1 ((job.run s caps).run w).1.2 := by
  cases job with
  | proto =>
      exact ends_proto hgoing hplain
  | rustdoc request =>
      exact ends_rustdoc hgoing request
  | html =>
      exact ends_html

end Job

end ApiPages

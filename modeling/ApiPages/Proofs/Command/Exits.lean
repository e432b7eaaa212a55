import ApiPages.Command.Execute
import ApiPages.Proofs.Run.Endings
import ApiPages.Run.Standard

/-!
# How commands exit

A command carries out one run or several, and exits with a failure exactly if one of them fails.

* `Report.verdict?_isSome_iff` reads the verdict on a report off its outcomes;
* `Job.Fails` says when a run fails, and `Job.Ends.exit_iff` that its exit code says so;
* `Command.Performs` is a row of runs of which the first that loses a page is the last;
* `Command.execute_exit` puts this together for command lines.
-/

namespace ApiPages

/-! ## Settings -/

/-- The names of the settings in order. -/
theorem Layers.mergeSort_names (l : Layers) {names : List String} (hperm : names.Perm l.names)
    (hsorted : names.Pairwise (· ≤ ·)) : l.names.mergeSort (· ≤ ·) = names := by
  have hmerged : (l.names.mergeSort (· ≤ ·)).Pairwise fun a b : String => a ≤ b := by
    refine (List.pairwise_mergeSort ?_ ?_ l.names).imp of_decide_eq_true
    · intro a b c hab hbc
      exact decide_eq_true (String.le_trans (of_decide_eq_true hab) (of_decide_eq_true hbc))
    · intro a b
      rcases String.le_total a b with h | h <;> simp [h]
  exact List.Perm.eq_of_pairwise (fun a b _ _ => String.le_antisymm) hmerged hsorted
    ((List.mergeSort_perm _ _).trans hperm.symm)

/-! ## Verdicts -/

/-- A report counts as failed if there are outcomes and all of them are failures, or if it is strict
and there is a failure. -/
theorem Report.verdict?_isSome_iff {ε : Type} (r : Report ε) (strict : Bool) :
    (r.verdict? strict).isSome = true ↔
      (r.outcomes ≠ [] ∧ ∀ o ∈ r.outcomes, o.isFailure = true) ∨
        (strict = true ∧ ∃ o ∈ r.outcomes, o.isFailure = true) := by
  have hnone : r.failed = 0 ↔ ∀ o ∈ r.outcomes, ¬ o.isFailure = true := List.countP_eq_zero
  have hall : r.failed = r.outcomes.length ↔ ∀ o ∈ r.outcomes, o.isFailure = true :=
    List.countP_eq_length
  rw [verdict?]
  by_cases hzero : r.failed = 0
  · -- without a failure neither reason is there
    rw [if_pos (beq_iff_eq.2 hzero)]
    refine iff_of_false (by simp) ?_
    rintro (⟨hne, hfailed⟩ | ⟨-, o, ho, hfailed⟩)
    · rcases List.exists_mem_of_ne_nil _ hne with ⟨o, ho⟩
      exact hnone.1 hzero o ho (hfailed o ho)
    · exact hnone.1 hzero o ho hfailed
  · have hsome : ∃ o ∈ r.outcomes, o.isFailure = true := by
      by_contra hno
      exact hzero (hnone.2 fun o ho hfailed => hno ⟨o, ho, hfailed⟩)
    rw [if_neg (mt beq_iff_eq.1 hzero)]
    by_cases hlength : r.failed = r.outcomes.length
    · rw [if_pos (beq_iff_eq.2 hlength)]
      refine iff_of_true rfl (Or.inl ⟨?_, hall.1 hlength⟩)
      rcases hsome with ⟨o, ho, -⟩
      exact List.ne_nil_of_mem ho
    · rw [if_neg (mt beq_iff_eq.1 hlength)]
      cases strict with
      | true =>
          exact iff_of_true rfl (Or.inr ⟨rfl, hsome⟩)
      | false =>
          refine iff_of_false (by simp) ?_
          rintro (⟨-, hfailed⟩ | ⟨hstrict, -⟩)
          · exact hlength (hall.2 hfailed)
          · cases hstrict

/-! ## One run -/

namespace Job

/-- What a run reports. -/
def report (s : Settings) (caps : Capabilities) (w : Workspace) (job : Job) : Report Failure :=
  ((job.run s caps).run w).1.1

/-- A run fails if it loses a page, if there are inputs and all of them fail, if it is strict and
one of them fails, or if it needs cargo, has none and is not one of continuous integration. -/
def Fails (s : Settings) (caps : Capabilities) (w : Workspace) (job : Job) : Prop :=
  job.LosesPage s caps w ∨
    ((job.report s caps w).outcomes ≠ [] ∧ ∀ o ∈ (job.report s caps w).outcomes,
      o.isFailure = true) ∨
    (s.strict = true ∧ ∃ o ∈ (job.report s caps w).outcomes, o.isFailure = true) ∨
    (job.needsCargo = true ∧ caps.cargo = false ∧ caps.ci = false)

variable {s : Settings} {caps : Capabilities} {w : Workspace} {job : Job} {r : Report Failure}
  {e? : Option Failure}

theorem Ends.isWrite_iff (h : Ends s caps w job r e?) :
    (e?.map Failure.isWrite).getD false = true ↔ job.LosesPage s caps w := by
  cases h with
  | lost path e hlost =>
      exact iff_of_true rfl hlost
  | completed hkept _ _ =>
      exact iff_of_false Bool.false_ne_true hkept
  | refused hkept _ _ _ _ =>
      exact iff_of_false Bool.false_ne_true hkept
  | skipped hkept _ _ _ _ =>
      exact iff_of_false Bool.false_ne_true hkept

/-- A run that loses no page and has the cargo it needs has an outcome for each of its inputs. -/
theorem Ends.inputs (h : Ends s caps w job r e?) (hkept : ¬ job.LosesPage s caps w)
    (hcargo : job.needsCargo = true → caps.cargo = true) :
    (r.outcomes.map Outcome.input).Perm (job.inputs s w) := by
  cases h with
  | completed _ _ hinputs =>
      exact hinputs
  | lost _ _ hlost =>
      exact absurd hlost hkept
  | refused _ hneeds hnone _ _ =>
      rw [hcargo hneeds] at hnone
      cases hnone
  | skipped _ hneeds hnone _ _ =>
      rw [hcargo hneeds] at hnone
      cases hnone

/-- The exit code of a run says whether it has failed. -/
theorem Ends.exit_iff (h : Ends s caps w job (job.report s caps w) e?) :
    (Command.finish s (job.report s caps w) e?).exit ≠ 0 ↔ job.Fails s caps w := by
  have hexit : (Command.finish s (job.report s caps w) e?).exit ≠ 0 ↔
      Command.succeeds (job.report s caps w) e? s.strict = false := by
    rw [Command.finish]
    cases Command.succeeds (job.report s caps w) e? s.strict <;> simp
  rw [hexit, Fails]
  generalize job.report s caps w = r at h
  cases h with
  | completed hkept hcargo _ =>
      have hmet : ¬ (job.needsCargo = true ∧ caps.cargo = false ∧ caps.ci = false) := by
        rintro ⟨hneeds, hnone, -⟩
        rw [hcargo hneeds] at hnone
        cases hnone
      rw [or_iff_right hkept, ← or_assoc, or_iff_left hmet, ← Report.verdict?_isSome_iff,
        Command.succeeds]
      cases r.verdict? s.strict <;> simp
  | lost path e hlost =>
      exact iff_of_true rfl (Or.inl hlost)
  | refused hkept hneeds hcargo hci houtcomes =>
      exact iff_of_true rfl (Or.inr (Or.inr (Or.inr ⟨hneeds, hcargo, hci⟩)))
  | skipped hkept hneeds hcargo hci houtcomes =>
      -- nothing was done, so none of the reasons is there
      rw [houtcomes, hci]
      refine iff_of_false Bool.noConfusion ?_
      simp [hkept]

end Job

/-! ## Rows of runs -/

namespace Command

/-- A row of runs, each with the workspace that it starts from, and the workspace that they leave.
A run that loses a page is the last one, all others make way for the next. -/
inductive Performs (s : Settings) (caps : Capabilities) :
    List Job → Workspace → List (Job × Workspace) → Workspace → Prop where
  | done (w : Workspace) : Performs s caps [] w [] w
  | lost {job : Job} {rest : List Job} {w : Workspace} : job.LosesPage s caps w →
      Performs s caps (job :: rest) w [(job, w)] ((job.run s caps).run w).2
  | next {job : Job} {rest : List Job} {w w' : Workspace} {turns : List (Job × Workspace)} :
      ¬ job.LosesPage s caps w → Performs s caps rest ((job.run s caps).run w).2 turns w' →
      Performs s caps (job :: rest) w ((job, w) :: turns) w'

/-- The runs of a command. -/
def jobs (c : CommandName) (flags : Arguments.Settled) : List Job :=
  match c with
  | .proto => [.proto]
  | .rustdoc => [.rustdoc (request flags)]
  | .html => [.html]
  | .probe => []
  | .all => [.proto, .rustdoc {}] ++ if Arguments.isOn flags "html" then [.html] else []

variable {s : Settings} {caps : Capabilities} {w : Workspace}

theorem exit_runAll (caps : Capabilities) (so : Result) (jobs : List Job)
    (hgoing : w.isCancelled = false) (hplain : Glob.hasMeta s.proto.dir = false) :
    ∃ turns, Performs s caps jobs w turns ((runAll s so (jobs.map (Job.run s caps))).run w).2 ∧
      (((runAll s so (jobs.map (Job.run s caps))).run w).1.exit ≠ 0 ↔
        so.exit ≠ 0 ∨ ∃ turn ∈ turns, turn.1.Fails s caps turn.2) := by
  induction jobs generalizing so w with
  | nil =>
      refine ⟨[], .done w, ?_⟩
      rw [or_iff_left (by simp), List.map_nil, runAll]
      split <;> exact Iff.rfl
  | cons job rest ih =>
      have hends := Job.ends_run caps hgoing hplain job
      rw [List.map_cons, runAll, Action.run_bind]
      dsimp only
      by_cases hlost : job.LosesPage s caps w
      · rw [if_pos (hends.isWrite_iff.2 hlost)]
        refine ⟨[(job, w)], .lost hlost, iff_of_true Nat.one_ne_zero (Or.inr ?_)⟩
        exact ⟨(job, w), List.mem_singleton_self _, Or.inl hlost⟩
      · rw [if_neg (mt hends.isWrite_iff.1 hlost)]
        rcases ih _ ((job.keeps_run s caps w).isCancelled.trans hgoing) with
          ⟨turns, hperforms, hexit⟩
        refine ⟨(job, w) :: turns, .next hlost hperforms, ?_⟩
        rw [hexit, List.exists_mem_cons_iff, ← hends.exit_iff, ← or_assoc]
        refine or_congr_left ?_
        show max so.exit _ ≠ 0 ↔ _
        rw [ne_eq, Nat.max_eq_zero_iff, not_and_or]
        rfl

/-- A single run is a row of its own. -/
theorem performs_singleton (job : Job) :
    Performs s caps [job] w [(job, w)] ((job.run s caps).run w).2 := by
  by_cases hlost : job.LosesPage s caps w
  · exact .lost hlost
  · exact .next hlost (.done _)

/-- What a command does once its settings are read. -/
theorem exit_perform (caps : Capabilities) (c : CommandName) (flags : Arguments.Settled)
    (hgoing : w.isCancelled = false) (hplain : Glob.hasMeta s.proto.dir = false) :
    ∃ turns, Performs s caps (jobs c flags) w turns ((perform c flags s caps).run w).2 ∧
      (((perform c flags s caps).run w).1.exit ≠ 0 ↔
        ∃ turn ∈ turns, turn.1.Fails s caps turn.2) := by
  -- a command with one run finishes it
  have hsingle : ∀ job : Job, (((job.run s caps >>= fun x => pure (finish s x.1 x.2)) :
      Action Result).run w).1.exit ≠ 0 ↔ ∃ turn ∈ [(job, w)], turn.1.Fails s caps turn.2 := by
    intro job
    have hends := Job.ends_run caps hgoing hplain job
    simp only [List.mem_singleton, exists_eq_left]
    exact hends.exit_iff
  cases c with
  | proto =>
      exact ⟨_, performs_singleton .proto, hsingle .proto⟩
  | rustdoc =>
      exact ⟨_, performs_singleton (.rustdoc (request flags)), hsingle (.rustdoc (request flags))⟩
  | html =>
      exact ⟨_, performs_singleton .html, hsingle .html⟩
  | probe =>
      exact ⟨[], .done w, iff_of_false (fun h => h rfl) (by simp)⟩
  | all =>
      rcases exit_runAll caps {} (jobs .all flags) hgoing hplain with ⟨turns, hperforms, hexit⟩
      have hruns : (jobs .all flags).map (Job.run s caps) =
          [ProtoRun.run s caps, RustdocRun.run s caps {}] ++
            if Arguments.isOn flags "html" then [HtmlRun.run s caps] else [] := by
        rw [jobs]
        cases Arguments.isOn flags "html" <;> rfl
      rw [hruns] at hperforms hexit
      exact ⟨turns, hperforms, hexit.trans (or_iff_right fun h => h rfl)⟩

/-! ## Command lines -/

/-- A command line names a command, its flags can be read and are no call for help, and the
configuration loads. -/
structure Reads (args : List String) (w : Workspace) (c : CommandName) (flags : Arguments.Settled)
    (s : Settings) : Prop where
  names : ∃ word rest, Arguments.splitWord? [] args = some (word, rest) ∧
    CommandName.ofWord? word = some c ∧ Arguments.parse c.flags rest = some flags
  works : Arguments.isOn flags "help" = false
  loads : settings c flags w = .ok s

variable {args : List String} {c : CommandName} {flags : Arguments.Settled}

theorem run_execute (h : Reads args w c flags s) :
    (execute args).run w =
      (perform c flags s ((Tool.probe s.ciVariables).run w).1).run
        ((Tool.probe s.ciVariables).run w).2 := by
  rcases h.names with ⟨word, rest, hword, hname, hflags⟩
  rw [execute, hword]
  dsimp only
  rw [hname]
  dsimp only
  rw [hflags]
  dsimp only
  rw [if_neg (by rw [h.works]; exact Bool.false_ne_true), Action.run_bind, Action.run_get]
  dsimp only
  rw [h.loads]
  rfl

theorem keeps_probe (ciVariables : List String) : Action.Keeps (Tool.probe ciVariables) :=
  (Action.keeps_call _).bind fun _ => Action.keeps_get.bind fun _ => Action.keeps_pure _

/-- Every run of a row starts in the setting of the first. -/
theorem Performs.isCancelled {jobs : List Job} {turns : List (Job × Workspace)} {w' : Workspace}
    (h : Performs s caps jobs w turns w') (hgoing : w.isCancelled = false) :
    ∀ turn ∈ turns, turn.2.isCancelled = false := by
  induction h with
  | done w =>
      exact fun turn hturn => absurd hturn List.not_mem_nil
  | lost _ =>
      intro turn hturn
      rw [List.mem_singleton.1 hturn]
      exact hgoing
  | @next job _ w _ _ _ _ ih =>
      intro turn hturn
      rcases List.mem_cons.1 hturn with rfl | hlater
      · exact hgoing
      · exact ih ((job.keeps_run s caps w).isCancelled.trans hgoing) turn hlater

/-- A command carries out its runs in order, and a run is the last one if it loses a page.  It exits
with a failure exactly if one of them fails: with a page lost, with failures only, with a failure
where these count, or without the cargo that it needs.  Any other run has an outcome for each of its
inputs. -/
theorem execute_exit (h : Reads args w c flags s) (hgoing : w.isCancelled = false)
    (hplain : Glob.hasMeta s.proto.dir = false) :
    let start := (Tool.probe s.ciVariables).run w
    ∃ turns, Performs s start.1 (jobs c flags) start.2 turns ((execute args).run w).2 ∧
      (((execute args).run w).1.exit ≠ 0 ↔ ∃ turn ∈ turns, turn.1.Fails s start.1 turn.2) ∧
      ∀ turn ∈ turns, ¬ turn.1.LosesPage s start.1 turn.2 →
        (turn.1.needsCargo = true → start.1.cargo = true) →
        ((turn.1.report s start.1 turn.2).outcomes.map Outcome.input).Perm
          (turn.1.inputs s turn.2) := by
  intro start
  have hstill : start.2.isCancelled = false := (keeps_probe _ w).isCancelled.trans hgoing
  rw [run_execute h]
  rcases exit_perform start.1 c flags hstill hplain with ⟨turns, hperforms, hexit⟩
  refine ⟨turns, hperforms, hexit, fun turn hturn hkept hcargo => ?_⟩
  exact (Job.ends_run _ (hperforms.isCancelled hstill turn hturn) hplain turn.1).inputs hkept hcargo

/-- A workspace without files and programs. -/
def bareWorkspace : Workspace where
  tools :=
    { run := fun _ files => (files, { fault? := some "not found" }), isInstalled := fun _ => false }
  formats := .standard
  web _ := { status := 404, body := [] }
  scratch := "/tmp"

/-- Without a file there are the defaults. -/
theorem settings_bareWorkspace :
    ∃ s, settings .all [] bareWorkspace = .ok s ∧ Glob.hasMeta s.proto.dir = false := by
  -- the names in order, so that nothing has to be sorted below
  have hnames : ["ci_env", "ext", "html.output_dir", "proto.cross_check", "proto.dir",
      "proto.output_dir", "proto.use_tool", "rustdoc.archive", "rustdoc.crate_dir",
      "rustdoc.crate_name", "rustdoc.json_name", "rustdoc.link_base", "rustdoc.output_dir",
      "rustdoc.runtime_title", "rustdoc.targets", "rustdoc.toolchain", "strict"].Perm
      (Layers.names
        { flags := Arguments.overrides .all []
          environment := bareWorkspace.environment
          defaults := Settings.defaults }) := by
    decide +kernel
  have hlooked : (Arguments.textOf [] "config").isEmpty = true := by decide
  have hfile : (SettingsFile.searchPaths bareWorkspace.environment).findSome?
      bareWorkspace.files.text? = none := by
    decide +kernel
  have hplain : (settings .all [] bareWorkspace).toOption.map (fun s => Glob.hasMeta s.proto.dir) =
      some false := by
    rw [settings, Settings.load, Settings.fileMembers?, if_pos hlooked, hfile]
    dsimp only
    rw [Layers.merged, Layers.mergeSort_names _ hnames (by decide +kernel)]
    decide +kernel
  cases hloads : settings .all [] bareWorkspace with
  | error e =>
      rw [hloads] at hplain
      cases hplain
  | ok s =>
      rw [hloads] at hplain
      exact ⟨s, rfl, Option.some.inj hplain⟩

/-- Of the two runs the second finds no cargo, unless the first has lost a page. -/
theorem execute_exit_bare : ((execute ["all"]).run bareWorkspace).1.exit ≠ 0 := by
  rcases settings_bareWorkspace with ⟨s, hloads, hplain⟩
  have hreads : Reads ["all"] bareWorkspace .all [] s :=
    ⟨⟨"all", [], by decide +kernel, by decide, rfl⟩, rfl, hloads⟩
  rcases execute_exit hreads rfl hplain with ⟨turns, hperforms, hexit, -⟩
  have hci : bareWorkspace.environment.hasAny s.ciVariables = false :=
    List.any_eq_false.2 fun _ _ => Bool.false_ne_true
  rw [hexit]
  generalize ((execute ["all"]).run bareWorkspace).2 = w' at hperforms
  cases hperforms with
  | lost hlost =>
      exact ⟨_, List.mem_singleton_self _, Or.inl hlost⟩
  | next _ hperforms =>
      cases hperforms with
      | lost hlost =>
          exact ⟨_, List.mem_cons_of_mem _ (List.mem_singleton_self _), Or.inl hlost⟩
      | next _ _ =>
          refine ⟨_, List.mem_cons_of_mem _ List.mem_cons_self, ?_⟩
          exact Or.inr (Or.inr (Or.inr ⟨rfl, rfl, hci⟩))

end Command
end ApiPages

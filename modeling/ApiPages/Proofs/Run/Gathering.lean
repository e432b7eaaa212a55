import ApiPages.Proofs.Archive.Reliability
import ApiPages.Proofs.Files.Frames
import ApiPages.Proofs.Tool.Emission

/-!
# Gathering the graphs of a request

Before anything is rendered the graphs of a request are gathered: they are named, downloaded, taken
from the archive or emitted.  An input whose graph is not to be had is reported as failed.

* `RustdocRun.Shares` divides the inputs between the graphs and the failures;
* `RustdocRun.Apart` is what keeps gathering away from the pages: cargo and the archive write
  nothing below the output directory;
* `RustdocRun.gather_spec` says that gathering divides all inputs and leaves the output directory
  alone.
-/

namespace ApiPages

open SlashPath FileTree

/-! ## Requests -/

namespace RustdocRequest

/-- Whether the graphs have to be emitted first. -/
def needsCargo (q : RustdocRequest) : Bool :=
  q.graphFiles.isEmpty && q.crates.isEmpty && !q.fromArchive

/-- What a request asks for, in order. -/
def inputs (q : RustdocRequest) (s : Settings) : List String :=
  if q.graphFiles.isEmpty && q.crates.isEmpty then s.rustdoc.targets.map Target.label
  else q.graphFiles ++ q.crates

end RustdocRequest

/-! ## Files of the archive -/

namespace Archive

variable {packing : Packing} {dir : String} {t t' : FileTree}

theorem bind_doing_eq_ok {α β : Type} {what : String} {x : Except OsError α}
    {f : α → Except Error β} {b : β} (h : (doing what x).bind f = .ok b) :
    ∃ a, x = .ok a ∧ f a = .ok b := by
  cases x with
  | ok a =>
      exact ⟨a, rfl, h⟩
  | error e =>
      cases h

/-- Storing a content saves it, or it is there already. -/
theorem saved_of_put {content : Bytes} {digest : String}
    (h : put packing dir t content = .ok (t', digest)) :
    t' = t ∨ t.save (contentPath dir (Digest.ofBytes content)) (packing.pack content) = .ok t' := by
  cases hexists : t.exists? (contentPath dir (Digest.ofBytes content)) with
  | true =>
      unfold put at h
      rw [if_pos hexists] at h
      cases h
      exact Or.inl rfl
  | false =>
      rw [put_new hexists] at h
      rcases bind_doing_eq_ok h with ⟨t₁, hmake, hrest⟩
      rcases bind_doing_eq_ok hrest with ⟨t₂, hwrite, hdone⟩
      cases hdone
      exact Or.inr (FileTree.save_eq_ok_iff.2 ⟨t₁, hmake, hwrite⟩)

theorem saved_of_tag {name digest : String} (h : tag dir t name digest = .ok t') :
    t.save (namePath dir name) (.ofText (digest ++ "\n")) = .ok t' := by
  cases hvalid : Digest.isValid digest with
  | true =>
      rw [tag_valid dir t name hvalid] at h
      rcases bind_doing_eq_ok h with ⟨t₁, hmake, hrest⟩
      cases hwrite : t₁.write (namePath dir name) (.ofText (digest ++ "\n")) with
      | ok t₂ =>
          rw [hwrite, doing_ok] at hrest
          cases hrest
          exact FileTree.save_eq_ok_iff.2 ⟨t₁, hmake, hwrite⟩
      | error e =>
          rw [hwrite] at hrest
          cases hrest
  | false =>
      unfold tag at h
      rw [hvalid] at h
      cases h

end Archive

namespace RustdocRun

/-! ## Graphs and failures -/

/-- The inputs are divided in order: each is the label of a graph or the input of a failure. -/
inductive Shares : List String → List GraphInput → List (Outcome Failure) → Prop where
  | nil : Shares [] [] []
  | graph {inputs graphs failed} (g : GraphInput) :
      Shares inputs graphs failed → Shares (g.label :: inputs) (g :: graphs) failed
  | failure {inputs graphs failed} (input : String) (e : Failure) :
      Shares inputs graphs failed →
        Shares (input :: inputs) graphs ({ input, failure? := some e } :: failed)

variable {inputs : List String} {graphs : List GraphInput} {failed : List (Outcome Failure)}

theorem Shares.perm (h : Shares inputs graphs failed) :
    (failed.map Outcome.input ++ graphs.map GraphInput.label).Perm inputs := by
  induction h with
  | nil =>
      exact List.Perm.refl _
  | graph g _ ih =>
      exact List.perm_middle.trans (ih.cons g.label)
  | failure input e _ ih =>
      exact ih.cons input

theorem Shares.order (h : Shares inputs graphs failed) :
    (graphs.map GraphInput.label).Sublist inputs := by
  induction h with
  | nil =>
      exact List.Sublist.refl _
  | graph g _ ih =>
      exact ih.cons_cons g.label
  | failure input e _ ih =>
      exact ih.cons input

theorem Shares.isFailure (h : Shares inputs graphs failed) :
    ∀ o ∈ failed, o.isFailure = true ∧ o.pages = [] := by
  induction h with
  | nil =>
      exact fun o ho => absurd ho List.not_mem_nil
  | graph g _ ih =>
      exact ih
  | failure input e _ ih =>
      intro o ho
      rcases List.mem_cons.1 ho with rfl | ho
      · exact ⟨rfl, rfl⟩
      · exact ih o ho

/-- Graphs that are there anyway come in front. -/
theorem Shares.append (h : Shares inputs graphs failed) (front : List GraphInput) :
    Shares (front.map GraphInput.label ++ inputs) (front ++ graphs) failed := by
  induction front with
  | nil =>
      exact h
  | cons g rest ih =>
      exact ih.graph g

/-! ## Ways of gathering -/

variable {s : Settings} {caps : Capabilities} {q : RustdocRequest} {w w₁ w' : Workspace}
  {r r' : Report Failure} {out : Place}

/-- Workspaces of one setting that hold the same at and below a place. -/
structure SameBelow (out : Place) (w w' : Workspace) : Prop where
  setting : w.SameSetting w'
  files : ∀ p, out <+: p → w'.files.node? p = w.files.node? p

theorem SameBelow.refl (out : Place) (w : Workspace) : SameBelow out w w :=
  ⟨.refl w, fun _ _ => rfl⟩

theorem SameBelow.trans {w'' : Workspace} (h : SameBelow out w w') (h' : SameBelow out w' w'') :
    SameBelow out w w'' where
  setting := h.setting.trans h'.setting
  files p hp := (h'.files p hp).trans (h.files p hp)

theorem sameBelow_of_leavesFiles {α : Type} {x : Action α} (hkeeps : Action.Keeps x)
    (hleaves : Action.LeavesFiles x) (w : Workspace) : SameBelow out w (x.run w).2 where
  setting := hkeeps w
  files p _ := by rw [hleaves w]

/-- Gathering divides the inputs between graphs and failures, which are added to the report, and
leaves what is at and below a place as it is. -/
structure Gathers (out : Place) (inputs : List String) (r : Report Failure) (w : Workspace)
    (graphs : List GraphInput) (r' : Report Failure) (w' : Workspace) : Prop
    extends SameBelow out w w' where
  shares : ∃ failed, Shares inputs graphs failed ∧ r' = { r with outcomes := r.outcomes ++ failed }

theorem gathers_nil (out : Place) (r : Report Failure) (w : Workspace) :
    Gathers out [] r w [] r w where
  toSameBelow := .refl out w
  shares := ⟨[], .nil, by rw [List.append_nil]⟩

theorem Gathers.graph (hfirst : SameBelow out w w₁) (h : Gathers out inputs r w₁ graphs r' w')
    {g : GraphInput} {label : String} (hlabel : g.label = label) :
    Gathers out (label :: inputs) r w (g :: graphs) r' w' where
  toSameBelow := hfirst.trans h.toSameBelow
  shares := by
    subst hlabel
    rcases h.shares with ⟨failed, hshares, hreport⟩
    exact ⟨failed, hshares.graph g, hreport⟩

theorem Gathers.failure (hfirst : SameBelow out w w₁) {input : String} {e : Failure}
    (h : Gathers out inputs (r.add { input, failure? := some e }) w₁ graphs r' w') :
    Gathers out (input :: inputs) r w graphs r' w' where
  toSameBelow := hfirst.trans h.toSameBelow
  shares := by
    rcases h.shares with ⟨failed, hshares, rfl⟩
    refine ⟨_, hshares.failure input e, ?_⟩
    rw [Report.add, List.append_assoc, List.singleton_append]

/-- Graphs that are there anyway come in front. -/
theorem Gathers.append (h : Gathers out inputs r w graphs r' w') (front : List GraphInput) :
    Gathers out (front.map GraphInput.label ++ inputs) r w (front ++ graphs) r' w' where
  toSameBelow := h.toSameBelow
  shares := by
    rcases h.shares with ⟨failed, hshares, hreport⟩
    exact ⟨failed, hshares.append front, hreport⟩

/-! ## Inputs without a graph -/

theorem run_decline (message key input : String) (e : Failure) (r : Report Failure)
    (w : Workspace) :
    ((decline message key input e r).run w).1 = r.add { input, failure? := some e } :=
  rfl

theorem sameBelow_decline (message key input : String) (e : Failure) (r : Report Failure)
    (w : Workspace) : SameBelow out w ((decline message key input e r).run w).2 :=
  ⟨w.sameSetting_with .., fun _ _ => rfl⟩

/-! ## Published and archived graphs -/

theorem keeps_fetchGraph (spec : CrateSpec) : Action.Keeps (Tool.fetchGraph spec) := by
  unfold Tool.fetchGraph
  refine Action.keeps_get.bind fun w => ?_
  dsimp only
  cases Url.normal (Tool.graphUrl w.registry spec) with
  | error reason =>
      exact Action.keeps_pure _
  | ok address =>
      refine (Action.keeps_request address).bind fun reply => ?_
      split
      · split <;> exact Action.keeps_pure _
      · exact Action.keeps_pure _

theorem leavesFiles_fetchGraph (spec : CrateSpec) : Action.LeavesFiles (Tool.fetchGraph spec) := by
  unfold Tool.fetchGraph
  refine Action.leavesFiles_get.bind fun w => ?_
  dsimp only
  cases Url.normal (Tool.graphUrl w.registry spec) with
  | error reason =>
      exact Action.leavesFiles_pure _
  | ok address =>
      refine (Action.leavesFiles_request address).bind fun reply => ?_
      split
      · split <;> exact Action.leavesFiles_pure _
      · exact Action.leavesFiles_pure _

theorem gathers_crates (out : Place) (texts : List String) (r : Report Failure) (w : Workspace) :
    Gathers out texts r w ((gatherCrates texts r).run w).1.1 ((gatherCrates texts r).run w).1.2
      ((gatherCrates texts r).run w).2 := by
  induction texts generalizing r w with
  | nil =>
      exact gathers_nil out r w
  | cons text rest ih =>
      have hfirst : SameBelow out w ((Tool.fetchGraph (CrateSpec.ofText text)).run w).2 :=
        sameBelow_of_leavesFiles (keeps_fetchGraph _) (leavesFiles_fetchGraph _) w
      unfold gatherCrates
      dsimp only
      rw [Action.run_bind]
      cases ((Tool.fetchGraph (CrateSpec.ofText text)).run w).1 with
      | error e =>
          dsimp only
          rw [Action.run_bind, run_decline]
          exact Gathers.failure (hfirst.trans (sameBelow_decline ..)) (ih _ _)
      | ok data =>
          dsimp only
          rw [Action.run_bind, Action.run_pure]
          exact Gathers.graph hfirst (ih r _) rfl

/-- The case of one target more, as the definition has it. -/
theorem gatherArchived_cons (s : Settings) (t : Target) (rest : List Target) (r : Report Failure) :
    gatherArchived s (t :: rest) r = do
      match unarchive s t (← get) with
      | .error e =>
          gatherArchived s rest
            (← decline "failed to read archived type graph" "target" t.label e r)
      | .ok data =>
          let (graphs, r) ← gatherArchived s rest r
          return ({ label := t.label, source := .data data, mode := t.mode } :: graphs, r) := by
  rfl

theorem gathers_archived (out : Place) (s : Settings) (targets : List Target)
    (r : Report Failure) (w : Workspace) :
    Gathers out (targets.map Target.label) r w ((gatherArchived s targets r).run w).1.1
      ((gatherArchived s targets r).run w).1.2 ((gatherArchived s targets r).run w).2 := by
  induction targets generalizing r w with
  | nil =>
      exact gathers_nil out r w
  | cons t rest ih =>
      rw [gatherArchived_cons, Action.run_bind, Action.run_get]
      dsimp only
      cases unarchive s t w with
      | error e =>
          dsimp only
          rw [Action.run_bind, run_decline]
          exact Gathers.failure (sameBelow_decline ..) (ih _ _)
      | ok data =>
          dsimp only
          rw [Action.run_bind, Action.run_pure]
          exact Gathers.graph (SameBelow.refl out w) (ih r w) rfl

/-! ## Emitted graphs -/

/-- Cargo and the archive write nothing at or below a place. -/
structure Apart (s : Settings) (w : Workspace) (out : Place) : Prop where
  cargo : ∀ t ∈ s.rustdoc.targets, ∀ files q, out <+: q →
    (w.tools.run (Tool.emissionCall s.rustdoc.crate t) files).1.node? q = files.node? q
  graphs : ∀ t ∈ s.rustdoc.targets,
    ∀ path ∈ [s.rustdoc.crate.emittedPath t, s.rustdoc.crate.keptPath t],
      ¬ Place.ofPath path <+: out ∧ ¬ out <+: Place.ofPath path
  archive : s.rustdoc.archive = true → ∀ t ∈ s.rustdoc.targets, ∀ content, ∀ path ∈
    [Archive.contentPath w.environment.archiveDir (Digest.ofBytes content),
      Archive.namePath w.environment.archiveDir (archiveName s t)], ¬ out <+: Place.ofPath path

theorem keeps_emitGraph (c : Crate) (t : Target) : Action.Keeps (Tool.emitGraph c t) := by
  unfold Tool.emitGraph
  refine (Action.keeps_call _).bind fun reply => ?_
  cases reply.fault? with
  | some fault =>
      exact Action.keeps_pure _
  | none =>
      refine Action.keeps_files.bind fun files => ?_
      split
      · refine (Action.keeps_change _).bind fun e? => ?_
        cases e? <;> exact Action.keeps_pure _
      · exact Action.keeps_pure _

theorem keeps_archive (s : Settings) (t : Target) (path : String) :
    Action.Keeps (archive s t path) := by
  unfold archive
  refine Action.keeps_get.bind fun w => ?_
  dsimp only
  cases w.files.read path with
  | error e =>
      exact Action.keeps_record _ _ _
  | ok b =>
      refine (Action.keeps_setFiles _).bind fun _ => ?_
      split <;> exact Action.keeps_record _ _ _

/-- Storing a graph changes nothing below a place that the archive's files do not lie in. -/
theorem node?_store {packing : Packing} {dir : String} {data : Bytes} {t : Target}
    {files : FileTree} {q : Place}
    (hcontent : ¬ out <+: Place.ofPath (Archive.contentPath dir (Digest.ofBytes data)))
    (hname : ¬ out <+: Place.ofPath (Archive.namePath dir (archiveName s t))) (hq : out <+: q) :
    (store packing s t dir files data).1.node? q = files.node? q := by
  unfold store
  cases hput : Archive.put packing dir files data with
  | error e =>
      rfl
  | ok stored =>
      rcases stored with ⟨files₁, digest⟩
      -- the graph goes to its digest and the name of the target points there
      have hstored : files₁.node? q = files.node? q := by
        rcases Archive.saved_of_put hput with rfl | hsave
        · rfl
        · exact FileTree.node?_save_of_apart
            (Archive.isClean_contentPath dir (Digest.isValid_ofBytes data)) hsave hcontent hq
      dsimp only
      cases htag : Archive.tag dir files₁ (archiveName s t) digest with
      | error e =>
          exact hstored
      | ok files₂ =>
          have hclean : IsClean (Archive.namePath dir (archiveName s t)) :=
            isClean_join (List.mem_cons_of_mem _ (List.mem_cons_self ..)) (by decide : "refs" ≠ "")
          exact (FileTree.node?_save_of_apart hclean (Archive.saved_of_tag htag) hname
            hq).trans hstored

theorem sameBelow_archive (h : Apart s w out) (harchive : s.rustdoc.archive = true)
    {t : Target} (ht : t ∈ s.rustdoc.targets) (path : String) :
    SameBelow out w ((archive s t path).run w).2 := by
  refine ⟨keeps_archive s t path w, fun q hq => ?_⟩
  cases hread : w.files.read path with
  | ok b =>
      have haway := h.archive harchive t ht b
      rw [(run_archive hread).1]
      exact node?_store (haway _ (by simp)) (haway _ (by simp)) hq
  | error e =>
      unfold archive
      rw [Action.run_bind, Action.run_get]
      dsimp only
      rw [hread]
      rfl

/-- Emitting the graph of a target and moving it aside changes nothing below the place. -/
theorem sameBelow_emitGraph (h : Apart s w out) {t : Target} (ht : t ∈ s.rustdoc.targets) :
    SameBelow out w ((Tool.emitGraph s.rustdoc.crate t).run w).2 := by
  let c := s.rustdoc.crate
  have hcalled : ∀ q, out <+: q → (Tool.emission c t w).1.node? q = w.files.node? q :=
    h.cargo t ht w.files
  refine ⟨keeps_emitGraph c t w, fun q hq => ?_⟩
  rcases (Tool.emitGraph_cases c t w).2 with ⟨-, hfiles⟩ | ⟨-, -, hmove⟩
  · rw [hfiles]
    exact hcalled q hq
  · have haway : ∀ path ∈ [c.emittedPath t, c.keptPath t], ¬ Place.ofPath path <+: q := by
      intro path hpath hbelow
      rcases List.prefix_or_prefix_of_prefix hbelow hq with habove | hinside
      · exact (h.graphs t ht path hpath).1 habove
      · exact (h.graphs t ht path hpath).2 hinside
    have hmoved := FileTree.node?_move (c.isClean_emittedPath t) (c.isClean_keptPath t) hmove
      (haway _ (by simp)) (haway _ (by simp))
    exact hmoved.trans (hcalled q hq)

/-- What is asked of cargo and the archive does not depend on what a run has changed. -/
theorem Apart.of_sameBelow (h : Apart s w out) (hsame : SameBelow out w w₁) : Apart s w₁ out where
  cargo := by rw [hsame.setting.tools]; exact h.cargo
  graphs := h.graphs
  archive := by
    rw [hsame.setting.environment]
    exact h.archive

theorem gathers_emitted (h : Apart s w out) (hcancelled : w.isCancelled = false)
    {targets : List Target} (htargets : ∀ t ∈ targets, t ∈ s.rustdoc.targets) (r : Report Failure) :
    ((gatherEmitted s targets r).run w).1.2 = none ∧
      Gathers out (targets.map Target.label) r w ((gatherEmitted s targets r).run w).1.1.1
        ((gatherEmitted s targets r).run w).1.1.2 ((gatherEmitted s targets r).run w).2 := by
  induction targets generalizing r w with
  | nil =>
      exact ⟨rfl, gathers_nil out r w⟩
  | cons t rest ih =>
      have hself := htargets t (List.mem_cons_self ..)
      have hrest : ∀ t' ∈ rest, t' ∈ s.rustdoc.targets :=
        fun t' ht' => htargets t' (List.mem_cons_of_mem _ ht')
      have hemit := sameBelow_emitGraph h hself
      unfold gatherEmitted
      rw [Action.run_bind, Action.run_get]
      dsimp only
      rw [hcancelled, if_neg Bool.false_ne_true, Action.run_bind]
      -- the targets that follow start from a workspace that is the same below the place
      have hlater : ∀ w₁, SameBelow out w w₁ → ∀ r₁,
          ((gatherEmitted s rest r₁).run w₁).1.2 = none ∧
            Gathers out (rest.map Target.label) r₁ w₁ ((gatherEmitted s rest r₁).run w₁).1.1.1
              ((gatherEmitted s rest r₁).run w₁).1.1.2 ((gatherEmitted s rest r₁).run w₁).2 :=
        fun w₁ hsame => ih (h.of_sameBelow hsame) (hsame.setting.isCancelled.trans hcancelled) hrest
      cases ((Tool.emitGraph s.rustdoc.crate t).run w).1 with
      | error e =>
          have hstep :=
            hemit.trans (sameBelow_decline "failed to emit type graph" "target" t.label e r
            ((Tool.emitGraph s.rustdoc.crate t).run w).2)
          rcases hlater _ hstep (r.add { input := t.label, failure? := some e }) with
            ⟨hnone, hgathers⟩
          dsimp only
          rw [Action.run_bind, run_decline]
          exact ⟨hnone, hgathers.failure hstep⟩
      | ok path =>
          dsimp only
          split
          · next harchive =>
              have hstep :=
                hemit.trans (sameBelow_archive (h.of_sameBelow hemit) harchive hself path)
              rcases hlater _ hstep r with ⟨hnone, hgathers⟩
              rw [Action.run_bind, Action.run_bind, Action.run_pure]
              exact ⟨hnone, hgathers.graph hstep rfl⟩
          · rcases hlater _ hemit r with ⟨hnone, hgathers⟩
            rw [Action.run_bind, Action.run_pure]
            exact ⟨hnone, hgathers.graph hemit rfl⟩

/-! ## Requests -/

/-- Gathering fails only for want of cargo; the inputs are divided between graphs and failures, and
nothing changes at or below a place that cargo and the archive keep away from. -/
theorem gather_spec {caps : Capabilities} {q : RustdocRequest} (hcancelled : w.isCancelled = false)
    (hcargo : q.needsCargo = true → caps.cargo = true)
    (hapart : q.needsCargo = true → Apart s w out) (r : Report Failure) :
    ((gather s caps q r).run w).1.2 = none ∧
      Gathers out (q.inputs s) r w ((gather s caps q r).run w).1.1.1
        ((gather s caps q r).run w).1.1.2 ((gather s caps q r).run w).2 := by
  unfold gather
  -- files and crates that are asked for come first, else the targets, archived or emitted
  split
  · next hgiven =>
      have hinputs : q.inputs s = (ofFiles s q.graphFiles).map GraphInput.label ++ q.crates := by
        have hlabels : (ofFiles s q.graphFiles).map GraphInput.label = q.graphFiles := by
          rw [ofFiles, List.map_map]
          exact List.map_id _
        rw [hlabels, RustdocRequest.inputs, if_neg]
        rw [← Bool.not_and, Bool.not_eq_true'] at hgiven
        rw [hgiven]
        exact Bool.false_ne_true
      rw [Action.run_bind, Action.run_pure, hinputs]
      exact ⟨rfl, (gathers_crates out q.crates r w).append _⟩
  · next hnone =>
      have hempty : (q.graphFiles.isEmpty && q.crates.isEmpty) = true := by
        rwa [← Bool.not_and, Bool.not_eq_true', Bool.not_eq_false] at hnone
      have hinputs : q.inputs s = s.rustdoc.targets.map Target.label := if_pos hempty
      rw [hinputs]
      split
      · rw [Action.run_bind, Action.run_pure]
        exact ⟨rfl, gathers_archived out s s.rustdoc.targets r w⟩
      · next hemitted =>
          have hneeds : q.needsCargo = true := by
            rw [RustdocRequest.needsCargo, hempty, Bool.eq_false_iff.2 hemitted]
            rfl
          -- cargo is needed here alone, and so it is there
          have hmet : (CargoRun.requirement? caps r).run w = (none, w) := by
            unfold CargoRun.requirement?
            rw [hcargo hneeds, if_pos rfl, Action.run_pure]
          rw [Action.run_bind, hmet]
          exact gathers_emitted (hapart hneeds) hcancelled (fun _ ht => ht) r

end RustdocRun
end ApiPages

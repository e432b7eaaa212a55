import ApiPages.Proofs.Files.Trees
import ApiPages.Proofs.Run.Actions
import ApiPages.Run.Standard
import ApiPages.Tool.Cargo

/-!
# Type graphs that are kept

The graphs of several targets are emitted one after the other into one directory, and each is moved
aside before the next one is emitted.  Whether they are all there in the end is a matter of the
paths alone.

* `Tool.EmitsOnly` is what is asked of cargo: it writes the graph of a target and no other file;
* `Tool.EmitsOnly.kept` and `Tool.EmitsOnly.keeps_file` are the step: the graph of the target is
  moved to its place, and every file elsewhere is left alone;
* `Tool.graphs_kept` is the run: targets that are apart keep their graphs;
* `Tool.apart_iff` says which targets are apart, and `Tool.library_graph_lost` shows two that are
  not.
-/

namespace ApiPages

open SlashPath

/-! ## Paths of graphs -/

namespace Crate

theorem isClean_emittedPath (c : Crate) (t : Target) : IsClean (c.emittedPath t) := by
  refine isClean_join (List.mem_cons_of_mem _ (List.mem_singleton_self _)) ?_
  simp

theorem isClean_keptPath (c : Crate) (t : Target) : IsClean (c.keptPath t) := by
  refine isClean_join (List.mem_cons_of_mem _ (List.mem_singleton_self _)) ?_
  simp

/-- The name of a graph file, made of a stem that has no slash. -/
theorem isName_json {stem : String} (h : '/' ∉ stem.toList) : IsName (stem ++ ".json").toList := by
  have hlength : 5 ≤ (stem ++ ".json").toList.length := by simp
  refine ⟨?_, ?_, ?_, ?_⟩
  · rintro heq
    simp [heq] at hlength
  · rintro heq
    simp [heq] at hlength
  · rintro heq
    simp [heq] at hlength
  · simpa using h

/-- Graph files of the same directory are the same if their stems are. -/
theorem join_json_inj {dir stem stem' : String} (h : '/' ∉ stem.toList) (h' : '/' ∉ stem'.toList) :
    SlashPath.join [dir, stem ++ ".json"] = SlashPath.join [dir, stem' ++ ".json"] ↔
      stem = stem' := by
  refine ⟨fun heq => ?_, fun heq => by rw [heq]⟩
  have hplace := congrArg Place.ofPath heq
  rw [Place.ofPath_join dir (by simpa using isName_json h),
    Place.ofPath_join dir (by simpa using isName_json h')] at hplace
  have hname := List.append_cancel_left hplace
  simpa using hname

end Crate

namespace Tool

variable {c : Crate} {t t' : Target} {targets : List Target} {tools : Toolbox} {w w' : Workspace}

/-- No later emission of the second target touches the graph that is kept for the first one. -/
structure Apart (c : Crate) (t t' : Target) : Prop where
  emitted : c.keptPath t ≠ c.emittedPath t'
  kept : c.keptPath t ≠ c.keptPath t'

/-- Targets are apart if their stems differ and the second is no binary that is named like the file
kept for the first. -/
theorem apart_iff (hgraph : '/' ∉ c.graphName.toList) (ht : '/' ∉ t.stem.toList)
    (ht' : '/' ∉ t'.stem.toList) :
    Apart c t t' ↔
      t.stem ≠ t'.stem ∧ ¬ (t'.isBinary = true ∧ t'.stem = c.graphName ++ "_" ++ t.stem) := by
  have hslash : ∀ s : String, '/' ∉ s.toList → '/' ∉ (c.graphName ++ "_" ++ s).toList := by
    intro s hs
    simp [hgraph, hs]
  have hkept : c.keptPath t = c.keptPath t' ↔ t.stem = t'.stem := by
    rw [Crate.keptPath, Crate.keptPath, Crate.join_json_inj (hslash _ ht) (hslash _ ht')]
    simp
  have hemitted : c.keptPath t = c.emittedPath t' ↔
      t'.isBinary = true ∧ t'.stem = c.graphName ++ "_" ++ t.stem := by
    rw [Crate.keptPath, Crate.emittedPath]
    cases hbinary : t'.isBinary with
    | true =>
        rw [if_pos rfl, Crate.join_json_inj (hslash _ ht) ht', eq_comm]
        simp
    | false =>
        -- the name of the library's graph is shorter than every name under which a graph is kept
        rw [if_neg Bool.false_ne_true, Crate.join_json_inj (hslash _ ht) hgraph]
        refine ⟨fun heq => ?_, fun h => absurd h.1 Bool.false_ne_true⟩
        have hlength := congrArg (fun s : String => s.toList.length) heq
        simp at hlength
  constructor
  · intro h
    exact ⟨fun heq => h.kept (hkept.2 heq), fun heq => h.emitted (hemitted.2 heq)⟩
  · rintro ⟨hstem, hname⟩
    exact ⟨fun heq => hname (hemitted.1 heq), fun heq => hstem (hkept.1 heq)⟩

/-! ## One emission -/

/-- The call by which the graph of a target is emitted. -/
def emissionCall (c : Crate) (t : Target) : Call where
  dir := c.dir
  name := "cargo"
  args := emissionArgs c t

/-- What the call for a target leaves and says. -/
def emission (c : Crate) (t : Target) (w : Workspace) : FileTree × Reply :=
  w.tools.run (emissionCall c t) w.files

/-- An emission gives the path where the graph is kept and has moved it there, or it has failed and
only the call has changed files. -/
theorem emitGraph_cases (c : Crate) (t : Target) (w : Workspace) :
    ((emitGraph c t).run w).2.tools = w.tools ∧
      ((∃ e, ((emitGraph c t).run w).1 = .error e) ∧
          ((emitGraph c t).run w).2.files = (emission c t w).1 ∨
        ((emitGraph c t).run w).1 = .ok (c.keptPath t) ∧ (emission c t w).2.fault? = none ∧
          (emission c t w).1.move (c.emittedPath t) (c.keptPath t) =
            .ok ((emitGraph c t).run w).2.files) := by
  have hcall : (Action.call (emissionCall c t)).run w = ((emission c t w).2,
      { w with files := (emission c t w).1, calls := w.calls ++ [emissionCall c t] }) :=
    Action.run_call _
  unfold emitGraph
  rw [← emissionCall, Action.run_bind, hcall]
  dsimp only
  cases hfault : (emission c t w).2.fault? with
  | some fault =>
      exact ⟨rfl, Or.inl ⟨⟨_, rfl⟩, rfl⟩⟩
  | none =>
      dsimp only
      rw [Action.run_bind, Action.run_files]
      dsimp only
      split
      · rw [Action.run_bind]
        cases hmove : (emission c t w).1.move (c.emittedPath t) (c.keptPath t) with
        | ok files =>
            rw [Action.run_change_ok hmove]
            exact ⟨rfl, Or.inr ⟨rfl, rfl, rfl⟩⟩
        | error e =>
            rw [Action.run_change_error hmove]
            exact ⟨rfl, Or.inl ⟨⟨_, rfl⟩, rfl⟩⟩
      · exact ⟨rfl, Or.inl ⟨⟨_, rfl⟩, rfl⟩⟩

/-- Cargo emits the graph of a target to its path, and writes no other file. -/
structure EmitsOnly (tools : Toolbox) (c : Crate) (t : Target) : Prop where
  emits : ∀ files, (tools.run (emissionCall c t) files).2.fault? = none →
    ∃ b, (tools.run (emissionCall c t) files).1.read (c.emittedPath t) = .ok b
  keeps : ∀ files path b, IsClean path → path ≠ c.emittedPath t → files.read path = .ok b →
    (tools.run (emissionCall c t) files).1.read path = .ok b

theorem holds_of_emission {b : Bytes} (h : (emission c t w).1.read (c.emittedPath t) = .ok b) :
    (emission c t w).1.Holds (Place.ofPath (c.emittedPath t)) b :=
  (FileTree.read_eq_ok_iff (c.isClean_emittedPath t)).1 h

/-- The graph that cargo has emitted is found where it is kept. -/
theorem EmitsOnly.kept {path : String} (h : EmitsOnly w.tools c t)
    (hok : ((emitGraph c t).run w).1 = .ok path) :
    path = c.keptPath t ∧ ∃ b, (emission c t w).1.read (c.emittedPath t) = .ok b ∧
      ((emitGraph c t).run w).2.files.read (c.keptPath t) = .ok b := by
  rcases (emitGraph_cases c t w).2 with ⟨⟨e, he⟩, -⟩ | ⟨hpath, hfault, hmove⟩
  · rw [hok] at he
    cases he
  · rcases h.emits w.files hfault with ⟨b, hb⟩
    have hmoved := FileTree.holds_of_move (c.isClean_emittedPath t) (c.isClean_keptPath t) hmove
      (holds_of_emission hb)
    refine ⟨Except.ok.inj (hok.symm.trans hpath), b, hb, ?_⟩
    exact (FileTree.read_eq_ok_iff (c.isClean_keptPath t)).2 hmoved.1

/-- A file that is at neither path of the target can be read as before. -/
theorem EmitsOnly.keeps_file (h : EmitsOnly w.tools c t) {path : String} {b : Bytes}
    (hclean : IsClean path) (hemitted : path ≠ c.emittedPath t) (hkept : path ≠ c.keptPath t)
    (hread : w.files.read path = .ok b) : ((emitGraph c t).run w).2.files.read path = .ok b := by
  have hcalled : (emission c t w).1.read path = .ok b :=
    h.keeps w.files path b hclean hemitted hread
  have hplace : ∀ other, IsClean other → path ≠ other → Place.ofPath path ≠ Place.ofPath other := by
    intro other hother hne heq
    exact hne (Place.eq_of_ofPath_eq hclean hother heq)
  -- the call leaves the file alone, and so does the move if it comes to that
  rcases (emitGraph_cases c t w).2 with ⟨-, hfiles⟩ | ⟨-, hfault, hmove⟩
  · rw [hfiles]
    exact hcalled
  · rcases h.emits w.files hfault with ⟨b', hb'⟩
    have hmoved := FileTree.holds_of_move (c.isClean_emittedPath t) (c.isClean_keptPath t) hmove
      (holds_of_emission hb')
    rw [FileTree.read_eq_ok_iff hclean] at hcalled ⊢
    exact hmoved.2 _ b (hplace _ (c.isClean_emittedPath t) hemitted)
      (hplace _ (c.isClean_keptPath t) hkept) hcalled

/-! ## All targets -/

/-- Emits the graphs of targets one after the other. -/
def emitAll (c : Crate) (targets : List Target) : Action (List (Except Failure String)) :=
  targets.mapM (emitGraph c)

theorem emitAll_cons (c : Crate) (t : Target) (rest : List Target) (w : Workspace) :
    (emitAll c (t :: rest)).run w =
      (((emitGraph c t).run w).1 :: ((emitAll c rest).run ((emitGraph c t).run w).2).1,
        ((emitAll c rest).run ((emitGraph c t).run w).2).2) :=
  Action.run_mapM_cons ..

theorem emitAll_append (c : Crate) (before after : List Target) (w : Workspace) :
    (emitAll c (before ++ after)).run w =
      (((emitAll c before).run w).1 ++ ((emitAll c after).run ((emitAll c before).run w).2).1,
        ((emitAll c after).run ((emitAll c before).run w).2).2) :=
  Action.run_mapM_append ..

theorem tools_emitAll (c : Crate) (targets : List Target) (w : Workspace) :
    ((emitAll c targets).run w).2.tools = w.tools := by
  induction targets generalizing w with
  | nil =>
      rfl
  | cons t rest ih =>
      calc
        ((emitAll c (t :: rest)).run w).2.tools
            = ((emitAll c rest).run ((emitGraph c t).run w).2).2.tools := by rw [emitAll_cons]
        _ = ((emitGraph c t).run w).2.tools := ih _
        _ = w.tools := (emitGraph_cases c t w).1

/-- A file that is at no path of the targets can be read as before. -/
theorem read_emitAll (hcargo : ∀ t ∈ targets, EmitsOnly w.tools c t) {path : String} {b : Bytes}
    (hclean : IsClean path) (haway : ∀ t ∈ targets, path ≠ c.emittedPath t ∧ path ≠ c.keptPath t)
    (hread : w.files.read path = .ok b) :
    ((emitAll c targets).run w).2.files.read path = .ok b := by
  induction targets generalizing w with
  | nil =>
      exact hread
  | cons t rest ih =>
      have hself := haway t (List.mem_cons_self ..)
      have hstep := (hcargo t (List.mem_cons_self ..)).keeps_file hclean hself.1 hself.2 hread
      rw [emitAll_cons]
      refine ih (fun t' ht' => ?_) (fun t' ht' => haway t' (List.mem_cons_of_mem _ ht')) hstep
      rw [(emitGraph_cases c t w).1]
      exact hcargo t' (List.mem_cons_of_mem _ ht')

/-- The graph of a target is kept if all later targets are apart from it. -/
theorem read_keptPath {before after : List Target} {path : String}
    (hcargo : ∀ t' ∈ before ++ t :: after, EmitsOnly w.tools c t')
    (hok : ((emitGraph c t).run ((emitAll c before).run w).2).1 = .ok path)
    (hapart : ∀ t' ∈ after, Apart c t t') :
    path = c.keptPath t ∧
      ∃ b, (emission c t ((emitAll c before).run w).2).1.read (c.emittedPath t) = .ok b ∧
        ((emitAll c (before ++ t :: after)).run w).2.files.read (c.keptPath t) = .ok b := by
  have htools := tools_emitAll c before w
  have hself : EmitsOnly ((emitAll c before).run w).2.tools c t := by
    rw [htools]
    exact hcargo t (by simp)
  rcases hself.kept hok with ⟨hpath, b, hemitted, hread⟩
  refine ⟨hpath, b, hemitted, ?_⟩
  -- once the graph is in its place, the later targets leave it alone
  rw [emitAll_append, emitAll_cons]
  refine read_emitAll (fun t' ht' => ?_) (c.isClean_keptPath t) (fun t' ht' => ?_) hread
  · rw [(emitGraph_cases c t _).1, htools]
    exact hcargo t' (by simp [ht'])
  · exact ⟨(hapart t' ht').emitted, (hapart t' ht').kept⟩

/-- In a run in which all graphs are emitted, each one is given where it is kept. -/
theorem paths_emitAll {paths : List String}
    (hok : ((emitAll c targets).run w).1 = paths.map .ok) : paths = targets.map c.keptPath := by
  induction targets generalizing w paths with
  | nil =>
      exact (List.map_eq_nil_iff.1 hok.symm)
  | cons t rest ih =>
      rw [emitAll_cons] at hok
      rcases List.map_eq_cons_iff.1 hok.symm with ⟨path, others, rfl, hpath, hothers⟩
      rcases (emitGraph_cases c t w).2 with ⟨⟨e, he⟩, -⟩ | ⟨hkept, -⟩
      · -- an emission that failed would stand among the results
        rw [he] at hpath
        cases hpath
      · rw [hkept] at hpath
        rw [List.map_cons, ih hothers.symm, Except.ok.inj hpath]

/-- Emitting the graphs of targets that are apart keeps them all: each path that is given holds what
cargo has emitted for its target. -/
theorem graphs_kept {paths : List String} (hcargo : ∀ t ∈ targets, EmitsOnly w.tools c t)
    (hok : ((emitAll c targets).run w).1 = paths.map .ok) (hapart : targets.Pairwise (Apart c)) :
    paths = targets.map c.keptPath ∧
      ∀ before t after, targets = before ++ t :: after →
        ∃ b, (emission c t ((emitAll c before).run w).2).1.read (c.emittedPath t) = .ok b ∧
          ((emitAll c targets).run w).2.files.read (c.keptPath t) = .ok b := by
  refine ⟨paths_emitAll hok, ?_⟩
  rintro before t after rfl
  have hlater : ∀ t' ∈ after, Apart c t t' :=
    (List.pairwise_cons.1 (List.pairwise_append.1 hapart).2.1).1
  have hself : ((emitGraph c t).run ((emitAll c before).run w).2).1 ∈ paths.map .ok := by
    rw [← hok, emitAll_append, emitAll_cons]
    exact List.mem_append_right _ (List.mem_cons_self ..)
  rcases List.mem_map.1 hself with ⟨path, -, hpath⟩
  exact (read_keptPath hcargo hpath.symm hlater).2

/-! ## A cargo that writes labels -/

/-- The target that a call without a toolchain is about. -/
def targetOf : List String → Target
  | _ :: "--bin" :: name :: _ => .binary name
  | _ => .library

theorem emittedPath_targetOf (h : c.toolchain = "") (t : Target) :
    c.emittedPath (targetOf (emissionArgs c t)) = c.emittedPath t := by
  rw [Crate.emittedPath, Crate.emittedPath, emissionArgs, h]
  cases hbinary : t.isBinary with
  | true =>
      have hkind : t.kind = "bin" := beq_iff_eq.1 hbinary
      simp [targetOf, Target.isBinary, Target.binary, Target.stem, hkind]
  | false =>
      simp [targetOf, Target.isBinary, Target.library]

/-- A cargo that writes a target's label instead of its graph, into a directory that is there. -/
def labelTool (c : Crate) : Toolbox where
  isInstalled _ := true
  run call files :=
    match files.write (c.emittedPath (targetOf call.args)) (.ofText (targetOf call.args).label) with
    | .error e => (files, { fault? := some e.message })
    | .ok files => (files, {})

theorem emitsOnly_labelTool (h : c.toolchain = "") (t : Target) : EmitsOnly (labelTool c) c t := by
  have hplace := c.isClean_emittedPath t
  let label := (targetOf (emissionArgs c t)).label
  have hrun : ∀ files, (labelTool c).run (emissionCall c t) files =
      match files.write (c.emittedPath t) (.ofText label) with
      | .error e => (files, { fault? := some e.message })
      | .ok files => (files, {}) := by
    intro files
    rw [← emittedPath_targetOf h t]
    rfl
  constructor
  · intro files hfault
    rw [hrun] at hfault ⊢
    cases hwrite : files.write (c.emittedPath t) (.ofText label) with
    | error e =>
        rw [hwrite] at hfault
        cases hfault
    | ok files' =>
        rcases (FileTree.write_eq_ok_iff hplace).1 hwrite with ⟨hopens, hnode, rfl⟩
        refine ⟨.ofText label, (FileTree.read_eq_ok_iff hplace).2 ?_⟩
        exact FileTree.holds_set hopens hnode
  · intro files path b hclean hne hread
    rw [hrun]
    cases hwrite : files.write (c.emittedPath t) (.ofText label) with
    | error e =>
        exact hread
    | ok files' =>
        rcases (FileTree.write_eq_ok_iff hplace).1 hwrite with ⟨-, hnode, rfl⟩
        rw [FileTree.read_eq_ok_iff hclean] at hread ⊢
        refine FileTree.Holds.set hread hnode fun heq => ?_
        exact hne (Place.eq_of_ofPath_eq hclean hplace heq)

/-- A crate in the working directory. -/
def app : Crate where
  name := "app"
  graphName := "app"

/-- A workspace with a documentation directory that is empty. -/
def appWorkspace : Workspace where
  files := { entries := [(["target"], .dir), (["target", "doc"], .dir)] }
  tools := labelTool app
  formats := .standard
  web _ := { status := 404, body := [] }
  scratch := "/tmp"

theorem emitsOnly_app (t : Target) : EmitsOnly appWorkspace.tools app t := by
  have htoolchain : app.toolchain = "" := rfl
  have hlabels : EmitsOnly (labelTool app) app t := emitsOnly_labelTool htoolchain t
  exact hlabels

/-- The library and a binary that is named like the crate, so that both are emitted to one path. -/
def namesakes : List Target := [.library, .binary "app"]

theorem graphs_kept_namesakes : ∃ b b',
    ((emitAll app namesakes).run appWorkspace).2.files.read (app.keptPath .library) = .ok b ∧
      ((emitAll app namesakes).run appWorkspace).2.files.read (app.keptPath (.binary "app")) =
        .ok b' := by
  have hcargo : ∀ t ∈ namesakes, EmitsOnly appWorkspace.tools app t := fun t _ => emitsOnly_app t
  have hok : ((emitAll app namesakes).run appWorkspace).1 =
      (namesakes.map app.keptPath).map .ok := by
    decide +kernel
  have hapart : namesakes.Pairwise (Apart app) :=
    List.pairwise_pair.2 ((apart_iff (by decide) (by decide) (by decide)).2 (by decide))
  have hkept := (graphs_kept hcargo hok hapart).2
  rcases hkept [] .library [.binary "app"] rfl with ⟨b, -, hb⟩
  rcases hkept [.library] (.binary "app") [] rfl with ⟨b', -, hb'⟩
  exact ⟨b, b', hb, hb'⟩

/-- The library and a binary whose graph is emitted to where the library's graph is kept. -/
def rivals : List Target := [.library, .binary "app_lib"]

/-- Cargo writes nothing but the graphs and both emissions succeed, but the library's graph is
gone. -/
theorem library_graph_lost :
    rivals.map some = ["lib", "bin:app_lib"].map Target.parse? ∧ rivals.Nodup ∧
      (∀ t ∈ rivals, EmitsOnly appWorkspace.tools app t) ∧
      ((emitAll app rivals).run appWorkspace).1 = (rivals.map app.keptPath).map .ok ∧
      ((emitAll app rivals).run appWorkspace).2.files.exists? (app.keptPath .library) = false := by
  refine ⟨by decide, by decide, fun t _ => emitsOnly_app t, ?_⟩
  decide +kernel

end Tool
end ApiPages

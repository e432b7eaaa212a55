import ApiPages.Proofs.Page.Headers
import ApiPages.Proofs.Run.Discovery
import ApiPages.Run.Standard

/-!
# What a program adds to a run

A run that uses a program is compared with the same run without it.  Where the program keeps to its
scratch directory, it can only add files that succeed.

* `ProtoRun.Shows` relates the workspaces of the two runs: what one of the files still to come leads
  to is the same in both, and the turns of other files keep it so;
* `ProtoRun.only_adds` puts the turns together;
* `ProtoRun.page_read_as_input` shows two runs that drift apart because the page of a file is a
  later file.
-/

namespace ApiPages

open SlashPath

namespace ProtoRun

/-- The settings of the same run without a program. -/
def withoutTool (s : Settings) : Settings :=
  { s with proto := { s.proto with useTool := false } }

variable {s : Settings} {caps : Capabilities} {file path : String} {files before rest : List String}
  {r r₀ r₁ r₁₀ : Report Failure} {w w₀ w₁ w₁₀ : Workspace} {page page₀ : Generated}

/-! ## One file in two workspaces -/

/-- A file leads to the same in a workspace of a run and in one of the run without a program, which
it is spared by. -/
structure Shows (s : Settings) (caps : Capabilities) (w w₀ : Workspace) (file : String) : Prop where
  clean : IsClean file
  formats : w₀.formats = w.formats
  spared : Spares s caps w file
  same : ∃ n, w.files.look file = .ok n ∧ w₀.files.look file = .ok n

theorem spares_withoutTool (s : Settings) (caps : Capabilities) (w : Workspace) (path : String) :
    Spares (withoutTool s) caps w path := by
  intro huses
  cases huses

/-- Without a program a file is left to the built-in reader. -/
theorem generated_withoutTool (s : Settings) (caps : Capabilities) (file : String) (w : Workspace) :
    generated (withoutTool s) caps file w = builtIn w.formats.headers s w.files file := by
  rfl

theorem builtIn_eq_of_look {t t₀ : FileTree} (h : t.look file = t₀.look file) (f : HeaderFormat) :
    builtIn f s t file = builtIn f s t₀ file := by
  have hread : t.read file = t₀.read file := by
    unfold FileTree.read
    rw [h]
  unfold builtIn schemaOf
  rw [hread]

theorem Shows.builtIn_tried (h : Shows s caps w w₀ file) :
    builtIn w.formats.headers s (tried s caps file w).files file =
      builtIn w₀.formats.headers s w₀.files file := by
  rcases h.same with ⟨n, hlook, hlook₀⟩
  rw [h.formats]
  exact builtIn_eq_of_look ((look_tried file h.spared h.clean hlook).trans hlook₀.symm) _

/-- A file without a document of a program has the page it has without the program. -/
theorem Shows.generated_eq (h : Shows s caps w w₀ file) (hnone : document? s caps file w = none) :
    generated s caps file w = generated (withoutTool s) caps file w₀ := by
  rw [generated_withoutTool, ← h.builtIn_tried, generated, hnone]

/-- A file that succeeds without a program succeeds with it. -/
theorem Shows.exists_generated (h : Shows s caps w w₀ file)
    (hpage : generated (withoutTool s) caps file w₀ = .ok page₀) :
    ∃ page, generated s caps file w = .ok page ∧ page.name = page₀.name := by
  cases hdocument : document? s caps file w with
  | none =>
      -- without a document both pages are made by the built-in reader
      exact ⟨page₀, (h.generated_eq hdocument).trans hpage, rfl⟩
  | some document =>
      have hgenerated : generated s caps file w =
          .ok (documentPage w.formats.headers s file document) := by
        rw [generated, hdocument]
      refine ⟨_, hgenerated, ?_⟩
      rw [name_of_generated hgenerated, name_of_generated hpage]
      rfl

theorem Shows.outcomeOf (h : Shows s caps w w₀ file)
    (hsuccess : (outcomeOf file (generated (withoutTool s) caps file w₀)).isFailure = false) :
    (outcomeOf file (generated s caps file w)).isFailure = false ∧
      (outcomeOf file (generated s caps file w)).pages =
        (outcomeOf file (generated (withoutTool s) caps file w₀)).pages := by
  cases hpage : generated (withoutTool s) caps file w₀ with
  | error e =>
      rw [hpage] at hsuccess
      cases hsuccess
  | ok page₀ =>
      rcases h.exists_generated hpage with ⟨page, hgenerated, hname⟩
      rw [hgenerated]
      exact ⟨rfl, congrArg (fun name => [name]) hname⟩

/-- A turn of both runs keeps what another file leads to, if the page that is written is not that
file. -/
theorem Shows.step (h : Shows s caps w w₀ path) (hturn : Step s caps file r w r₁ w₁)
    (hturn₀ : Step (withoutTool s) caps file r₀ w₀ r₁₀ w₁₀) (hpage : pagePath s file ≠ path) :
    Shows s caps w₁ w₁₀ path := by
  rcases h.same with ⟨n, hlook, hlook₀⟩
  constructor
  case clean =>
    exact h.clean
  case formats =>
    rw [hturn₀.setting.formats, hturn.setting.formats, h.formats]
  case spared =>
    exact h.spared.of_sameSetting hturn.setting
  case same =>
    refine ⟨n, hturn.look h.spared h.clean (fun _ => hpage) hlook, ?_⟩
    exact hturn₀.look (spares_withoutTool s caps w₀ path) h.clean (fun _ => hpage) hlook₀

/-- Both runs get to the turn of a file with that file as it was. -/
theorem Shows.documentAll (h : Shows s caps w w₀ path)
    (hdone : ((documentAll s caps files r).run w).1.2 = none)
    (hdone₀ : ((documentAll (withoutTool s) caps files r₀).run w₀).1.2 = none)
    (hpages : ∀ file ∈ files, pagePath s file ≠ path) :
    Shows s caps ((documentAll s caps files r).run w).2
      ((documentAll (withoutTool s) caps files r₀).run w₀).2 path := by
  -- the files have their turns in the same order, so one induction goes through both runs
  induction files generalizing r r₀ w w₀ with
  | nil =>
      exact h
  | cons file rest ih =>
      rcases exists_step_of_done hdone with ⟨r₁, w₁, hturn, hstep⟩
      rcases exists_step_of_done hdone₀ with ⟨r₁₀, w₁₀, hturn₀, hstep₀⟩
      rw [hstep] at hdone ⊢
      rw [hstep₀] at hdone₀ ⊢
      apply ih (h.step hturn hturn₀ (hpages file (List.mem_cons_self ..))) hdone hdone₀
      intro file' hfile
      exact hpages file' (List.mem_cons_of_mem _ hfile)

/-- What both runs report of the files, one by one: a file that succeeds without a program succeeds
with it and has the same page. -/
theorem forall₂_documentAll (hshows : ∀ file ∈ files, Shows s caps w w₀ file)
    (hpages : files.Pairwise fun file file' => pagePath s file ≠ file')
    (hdone : ((documentAll s caps files r).run w).1.2 = none)
    (hdone₀ : ((documentAll (withoutTool s) caps files r₀).run w₀).1.2 = none) :
    ∃ outcomes outcomes₀,
      ((documentAll s caps files r).run w).1.1.outcomes = r.outcomes ++ outcomes ∧
        ((documentAll (withoutTool s) caps files r₀).run w₀).1.1.outcomes =
          r₀.outcomes ++ outcomes₀ ∧
        List.Forall₂ (fun o o₀ => o₀.isFailure = false → o.isFailure = false ∧ o.pages = o₀.pages)
          outcomes outcomes₀ := by
  -- the relation to the files that are still to come carries the induction
  induction files generalizing r r₀ w w₀ with
  | nil =>
      exact ⟨[], [], (List.append_nil _).symm, (List.append_nil _).symm, .nil⟩
  | cons file rest ih =>
      rcases exists_step_of_done hdone with ⟨r₁, w₁, hturn, hstep⟩
      rcases exists_step_of_done hdone₀ with ⟨r₁₀, w₁₀, hturn₀, hstep₀⟩
      rw [hstep] at hdone ⊢
      rw [hstep₀] at hdone₀ ⊢
      rcases List.pairwise_cons.1 hpages with ⟨hpage, hpages'⟩
      -- the page of this file is none of the files that are still to come
      have hshows' : ∀ file' ∈ rest, Shows s caps w₁ w₁₀ file' := by
        intro file' hfile'
        exact (hshows file' (List.mem_cons_of_mem _ hfile')).step hturn hturn₀ (hpage file' hfile')
      rcases ih hshows' hpages' hdone hdone₀ with ⟨outcomes, outcomes₀, hall, hall₀, hoks⟩
      refine ⟨_ :: outcomes, _ :: outcomes₀, ?_, ?_,
        .cons (hshows file (List.mem_cons_self ..)).outcomeOf hoks⟩
      · rw [hall, hturn.outcomes, List.append_assoc, List.singleton_append]
      · rw [hall₀, hturn₀.outcomes, List.append_assoc, List.singleton_append]

/-! ## Two runs -/

/-- What a program adds to a run: every file is reported as it is without the program or better, a
file that the program does not document has the same page, and every page has a header. -/
structure OnlyAdds (s : Settings) (caps : Capabilities) (w : Workspace) : Prop where
  inputs : ((run s caps).run w).1.1.outcomes.map Outcome.input =
    ((run (withoutTool s) caps).run w).1.1.outcomes.map Outcome.input
  successes : List.Forall₂
    (fun o o₀ => o₀.isFailure = false → o.isFailure = false ∧ o.pages = o₀.pages)
    ((run s caps).run w).1.1.outcomes ((run (withoutTool s) caps).run w).1.1.outcomes
  pages : ∀ before o after, ((run s caps).run w).1.1.outcomes = before ++ o :: after →
    document? s caps o.input (turn s caps w (before.map Outcome.input)) = none →
    ((generate s caps o.input).run (turn s caps w (before.map Outcome.input))).1 =
      ((generate (withoutTool s) caps o.input).run
        (turn (withoutTool s) caps w (before.map Outcome.input))).1
  headers : ∀ file w' page, ((generate s caps file).run w').1 = .ok page ∨
    ((generate (withoutTool s) caps file).run w').1 = .ok page →
      FrontMatter.isPresent page.content = true
  placeholder :
    FrontMatter.isPresent ((SchemaPage.placeholder s.extension).content w.formats.headers) = true

theorem isPresent_of_generated (h : generated s caps file w = .ok page) :
    FrontMatter.isPresent page.content = true := by
  unfold generated at h
  cases hdocument : document? s caps file w with
  | some document =>
      rw [hdocument] at h
      cases h
      exact FrontMatter.isPresent_ensure ..
  | none =>
      rw [hdocument] at h
      dsimp only [builtIn] at h
      split at h
      · cases h
      · cases h
        exact Page.isPresent_content ..

/-- A fresh scratch directory and a program that keeps to it leave the files that are found
alone. -/
theorem shows_inputs (hproper : w.files.Proper) (hconfined : Tool.Confined w.tools w.scratch)
    (hroom : ∀ q, Place.ofPath w.scratch <+: q → w.files.node? q = none)
    (hdir : w.files.isDir s.proto.dir = true) (hinputs : inputs? w.files s.proto.dir = some files)
    (hfile : file ∈ files) : Shows s caps w w file := by
  rcases look_inputs hproper hdir hinputs hfile with ⟨hclean, n, hlook⟩
  -- a file that is there does not lie in a directory that is fresh
  have hout : ¬ Place.ofPath w.scratch <+: Place.ofPath file := by
    intro hbelow
    have hnode := ((FileTree.look_eq_ok_iff hclean).1 hlook).2
    rw [hroom _ hbelow] at hnode
    cases hnode
  exact ⟨hclean, rfl, fun _ => hconfined.spares hclean hout, n, hlook, hlook⟩

/-- At its turn each file leads to the same in both runs, where no page goes to a later file. -/
theorem shows_turn (hshows : ∀ file ∈ files, Shows s caps w w file)
    (hpages : files.Pairwise fun file file' => pagePath s file ≠ file')
    (hdone : ((documentAll s caps files { kind := "proto" }).run w).1.2 = none)
    (hdone₀ : ((documentAll (withoutTool s) caps files { kind := "proto" }).run w).1.2 = none)
    (hfiles : files = before ++ file :: rest) :
    Shows s caps (turn s caps w before) (turn (withoutTool s) caps w before) file := by
  rw [hfiles] at hdone hdone₀ hpages
  rcases documentAll_append hdone with ⟨r, hbefore, -⟩
  rcases documentAll_append hdone₀ with ⟨r₀, hbefore₀, -⟩
  have hmem : file ∈ files := by
    rw [hfiles]
    exact List.mem_append_right _ (List.mem_cons_self ..)
  refine (hshows file hmem).documentAll (by rw [hbefore]) (by rw [hbefore₀]) fun file' hfile' => ?_
  exact (List.pairwise_append.1 hpages).2.2 file' hfile' file (List.mem_cons_self ..)

theorem OnlyAdds.of_outcomes
    (hinputs : ((run s caps).run w).1.1.outcomes.map Outcome.input =
      ((run (withoutTool s) caps).run w).1.1.outcomes.map Outcome.input)
    (hoks : List.Forall₂
      (fun o o₀ => o₀.isFailure = false → o.isFailure = false ∧ o.pages = o₀.pages)
      ((run s caps).run w).1.1.outcomes ((run (withoutTool s) caps).run w).1.1.outcomes)
    (hpages : ∀ before o after, ((run s caps).run w).1.1.outcomes = before ++ o :: after →
      document? s caps o.input (turn s caps w (before.map Outcome.input)) = none →
      generated s caps o.input (turn s caps w (before.map Outcome.input)) =
        generated (withoutTool s) caps o.input
          (turn (withoutTool s) caps w (before.map Outcome.input))) :
    OnlyAdds s caps w := by
  constructor
  case inputs =>
    exact hinputs
  case successes =>
    exact hoks
  case pages =>
    intro before o after houtcomes hnone
    rw [(run_generate s caps o.input _).1, (run_generate (withoutTool s) caps o.input _).1]
    exact hpages before o after houtcomes hnone
  case headers =>
    intro file w' page hgenerate
    rw [(run_generate s caps file w').1, (run_generate (withoutTool s) caps file w').1] at hgenerate
    exact hgenerate.elim isPresent_of_generated isPresent_of_generated
  case placeholder =>
    exact Page.isPresent_content ..

/-- Runs that report nothing agree. -/
theorem OnlyAdds.of_nil (h : ((run s caps).run w).1.1.outcomes = [])
    (h₀ : ((run (withoutTool s) caps).run w).1.1.outcomes = []) : OnlyAdds s caps w := by
  refine .of_outcomes (by rw [h, h₀]) (by rw [h, h₀]; exact .nil) fun before o after houtcomes => ?_
  rw [h] at houtcomes
  exact absurd houtcomes.symm (List.append_ne_nil_of_right_ne_nil _ (List.cons_ne_nil o after))

/-- Runs that get to their last file agree. -/
theorem OnlyAdds.of_done (hdir : w.files.isDir s.proto.dir = true)
    (hinputs : inputs? w.files s.proto.dir = some files)
    (hshows : ∀ file ∈ files, Shows s caps w w file)
    (hpages : files.Pairwise fun file file' => pagePath s file ≠ file')
    (hdone : ((documentAll s caps files { kind := "proto" }).run w).1.2 = none)
    (hdone₀ : ((documentAll (withoutTool s) caps files { kind := "proto" }).run w).1.2 = none) :
    OnlyAdds s caps w := by
  have hrun := (run_dir s caps hdir hinputs).1
  have hrun₀ := (run_dir (withoutTool s) caps hdir hinputs).1
  rcases outcomes_documentAll hdone with ⟨outcomes, houtcomes, hfiles⟩
  rcases outcomes_documentAll hdone₀ with ⟨outcomes₀, houtcomes₀, hfiles₀⟩
  rw [List.nil_append] at houtcomes houtcomes₀
  refine .of_outcomes ?inputs ?successes ?pages
  case inputs =>
    rw [hrun, hrun₀, houtcomes, houtcomes₀, hfiles, hfiles₀]
  case successes =>
    rcases forall₂_documentAll hshows hpages hdone hdone₀ with ⟨outs, outs₀, houts, houts₀, hoks⟩
    rw [List.nil_append] at houts houts₀
    rw [hrun, hrun₀, houts, houts₀]
    exact hoks
  case pages =>
    intro before o after hsplit hnone
    rw [hrun, houtcomes] at hsplit
    -- a place in the report is a place among the files, and so a turn of both runs
    have hsame : files = before.map Outcome.input ++ o.input :: after.map Outcome.input := by
      rw [← hfiles, hsplit, List.map_append, List.map_cons]
    exact (shows_turn hshows hpages hdone hdone₀ hsame).generated_eq hnone

/-- A program that changes nothing outside of its fresh scratch directory can only add files that
succeed to a run, where both runs write their pages and no page goes to a file that is still to
come. -/
theorem only_adds (s : Settings) (caps : Capabilities) (w : Workspace) (hproper : w.files.Proper)
    (hconfined : Tool.Confined w.tools w.scratch)
    (hroom : ∀ q, Place.ofPath w.scratch <+: q → w.files.node? q = none)
    (happart : ∀ files, inputs? w.files s.proto.dir = some files →
      files.Pairwise fun file file' => pagePath s file ≠ file')
    (hwrites : ∀ path e, ((run s caps).run w).1.2 ≠ some (.write path e))
    (hwrites₀ : ∀ path e, ((run (withoutTool s) caps).run w).1.2 ≠ some (.write path e)) :
    OnlyAdds s caps w := by
  -- both runs find the same files, so they end alike wherever no file has its turn
  cases hdir : w.files.isDir s.proto.dir with
  | false =>
      have hdir₀ : w.files.isDir (withoutTool s).proto.dir = false := hdir
      refine .of_nil ?_ ?_
      · rw [run_missing hdir, outcomes_writePlaceholder]
      · rw [run_missing hdir₀, outcomes_writePlaceholder]
  | true =>
      have hdir₀ : w.files.isDir (withoutTool s).proto.dir = true := hdir
      cases hinputs : inputs? w.files s.proto.dir with
      | none =>
          have hinputs₀ : inputs? w.files (withoutTool s).proto.dir = none := hinputs
          refine .of_nil ?_ ?_
          · rw [run_broken hdir hinputs]
          · rw [run_broken hdir₀ hinputs₀]
      | some files =>
          have hinputs₀ : inputs? w.files (withoutTool s).proto.dir = some files := hinputs
          have hrun := (run_dir s caps hdir hinputs).1
          have hrun₀ := (run_dir (withoutTool s) caps hdir₀ hinputs₀).1
          cases hcancelled : w.isCancelled with
          | true =>
              refine .of_nil ?_ ?_
              · rw [hrun, documentAll_cancelled hcancelled]
              · rw [hrun₀, documentAll_cancelled hcancelled]
          | false =>
              rw [hrun] at hwrites
              rw [hrun₀] at hwrites₀
              apply OnlyAdds.of_done hdir hinputs
              · intro file hfile
                exact shows_inputs hproper hconfined hroom hdir hinputs hfile
              · exact happart files hinputs
              · exact documentAll_completes hcancelled hwrites
              · exact documentAll_completes hcancelled hwrites₀

/-! ### A program that documents one of two files -/

def halfTool : Toolbox where
  isInstalled _ := true
  run call files :=
    if call.args.getLast? = some "proto/a.proto" then
      (files.set ["/", "tmp", "protoc", "a.md"] (.file (.ofText "message T \x7b\n\x7d\n")), {})
    else (files, { fault? := some "exit status 1" })

def halfWorkspace : Workspace where
  files :=
    { entries :=
        [(["/", "tmp"], .dir), (["proto"], .dir),
          (["proto", "a.proto"], .file (.ofText "message A \x7b\n\x7d\n")),
          (["proto", "a.z.proto"], .file (.ofText "message Z \x7b\n\x7d\n"))] }
  tools := halfTool
  formats := .standard
  web _ := { status := 404, body := [] }
  scratch := "/tmp/protoc"

def toolRun (outputDir extension : String) : Settings where
  extension := extension
  proto := { dir := "proto", outputDir, useTool := true }

def bothPrograms : Capabilities where
  protoc := true
  protocGenDoc := true

theorem ofPath_scratch : Place.ofPath halfWorkspace.scratch = ["/", "tmp", "protoc"] := by
  decide

theorem confined_halfTool : Tool.Confined halfWorkspace.tools halfWorkspace.scratch := by
  intro file files q hq
  rw [ofPath_scratch] at hq
  have htools : halfWorkspace.tools = halfTool := rfl
  rw [htools]
  unfold halfTool
  dsimp only
  split
  · refine FileTree.node?_set_of_ne fun heq => hq ?_
    rw [heq]
    exact List.prefix_append ["/", "tmp", "protoc"] ["a.md"]
  · rfl

theorem fresh_scratch : ∀ q, Place.ofPath halfWorkspace.scratch <+: q →
    halfWorkspace.files.node? q = none := by
  rw [ofPath_scratch]
  rintro q ⟨below, rfl⟩
  rfl

theorem inputs?_half : inputs? halfWorkspace.files "proto" =
    some ["proto/a.proto", "proto/a.z.proto"] := by
  have hnames : namesIn halfWorkspace.files "proto" = ["a.proto", "a.z.proto"] := by
    rw [namesIn, FileTree.children, FileTree.below_eq_of_sorted rfl (by decide)]
    decide
  rw [inputs?_eq (by decide) (by decide) (by decide), hnames]
  decide

theorem isDir_half : halfWorkspace.files.isDir "proto" = true := by
  decide

/-- Below another directory the pages are no files of the run, so the program only adds to it. -/
theorem only_adds_half : OnlyAdds (toolRun "out" ".md") bothPrograms halfWorkspace := by
  have hdone : ((run (toolRun "out" ".md") bothPrograms).run halfWorkspace).1.2 = none := by
    rw [(run_dir (toolRun "out" ".md") bothPrograms isDir_half inputs?_half).1]
    decide +kernel
  have hdone₀ :
      ((run (withoutTool (toolRun "out" ".md")) bothPrograms).run halfWorkspace).1.2 = none := by
    rw [(run_dir (withoutTool (toolRun "out" ".md")) bothPrograms isDir_half inputs?_half).1]
    decide +kernel
  refine only_adds (toolRun "out" ".md") bothPrograms halfWorkspace (by decide) confined_halfTool
    fresh_scratch ?_ ?_ ?_
  · intro files hfiles
    have hsome := hfiles.symm.trans inputs?_half
    cases hsome
    decide
  · intro path e
    rw [hdone]
    exact fun heq => (nomatch heq)
  · intro path e
    rw [hdone₀]
    exact fun heq => (nomatch heq)

/-- Where pages go to the directory of the files and end as they do, the page of the first file is
the second one: the program documents the first in its own way, fails on the second, and the page of
the second is not that of the run without a program. -/
theorem page_read_as_input :
    Tool.Confined halfWorkspace.tools halfWorkspace.scratch ∧
      (∀ q, Place.ofPath halfWorkspace.scratch <+: q → halfWorkspace.files.node? q = none) ∧
      ((run (toolRun "proto" ".z.proto") bothPrograms).run halfWorkspace).1 =
        ({ kind := "proto"
           outcomes :=
             [{ input := "proto/a.proto", source := "protoc-gen-doc", pages := ["a.z.proto"] },
               { input := "proto/a.z.proto", source := "parser", pages := ["a.z.z.proto"] }] },
          none) ∧
      ((run (withoutTool (toolRun "proto" ".z.proto")) bothPrograms).run halfWorkspace).1.2 = none ∧
      document? (toolRun "proto" ".z.proto") bothPrograms "proto/a.z.proto"
        (turn (toolRun "proto" ".z.proto") bothPrograms halfWorkspace ["proto/a.proto"]) = none ∧
      ((generate (toolRun "proto" ".z.proto") bothPrograms "proto/a.z.proto").run
        (turn (toolRun "proto" ".z.proto") bothPrograms halfWorkspace ["proto/a.proto"])).1 ≠
        ((generate (withoutTool (toolRun "proto" ".z.proto")) bothPrograms "proto/a.z.proto").run
          (turn (withoutTool (toolRun "proto" ".z.proto")) bothPrograms halfWorkspace
            ["proto/a.proto"])).1 := by
  have hrun := (run_dir (toolRun "proto" ".z.proto") bothPrograms isDir_half inputs?_half).1
  have hrun₀ := (run_dir (withoutTool (toolRun "proto" ".z.proto")) bothPrograms isDir_half
    inputs?_half).1
  rw [hrun, hrun₀]
  exact ⟨confined_halfTool, fresh_scratch, by decide +kernel⟩

end ProtoRun
end ApiPages

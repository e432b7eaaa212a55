import ApiPages.Proofs.Page.Names
import ApiPages.Proofs.Run.Discovery

/-!
# Pages that are kept

A run writes the page of each definition file at its turn.  The page is there in the end unless the
page of a later file goes to the same path.

* `ProtoRun.pages_kept` says so of every file that succeeds, and which file names share a page;
* `ProtoRun.main_page_replaced` shows that the page of one file may be replaced by that of another
  one.
-/

namespace ApiPages

open SlashPath

namespace ProtoRun

/-- One of two files is that of the main page, and the other one is named like that page. -/
def MainPair (file file' : String) : Prop :=
  base file = "api.proto" ∧ base file' = "service.proto" ∨
    base file = "service.proto" ∧ base file' = "api.proto"

/-- What becomes of the pages of a run.  Each file that succeeds has a page that was generated at
its turn, and where programs spare it and no later file that succeeds has a page at the same path,
it is what that path holds in the end.  Two definition files of different names share a page only if
they are the main pair, and so do the files that a run finds in a directory. -/
structure KeepsPages (s : Settings) (caps : Capabilities) (w : Workspace) : Prop where
  kept : ∀ before o after, ((run s caps).run w).1.1.outcomes = before ++ o :: after →
    o.isFailure = false →
    ∃ page,
      ((generate s caps o.input).run (turn s caps w (before.map Outcome.input))).1 = .ok page ∧
        o.pages = [page.name] ∧ page.name = SchemaPage.fileName o.input s.extension ∧
        (Spares s caps w (pagePath s o.input) →
          (∀ o' ∈ after, o'.isFailure = false → pagePath s o'.input ≠ pagePath s o.input) →
          ((run s caps).run w).2.files.read (join [s.proto.outputDir, page.name]) =
            .ok (.ofText page.content))
  names : ∀ file file', Text.endsWith (base file) ".proto" = true →
    Text.endsWith (base file') ".proto" = true → base file ≠ base file' →
      (SchemaPage.fileName file s.extension = SchemaPage.fileName file' s.extension ↔
        MainPair file file')
  paths : w.files.Proper → Glob.hasMeta (clean s.proto.dir) = false →
    IsName (Page.normalExtension s.extension).toList →
    (((run s caps).run w).1.1.outcomes.map Outcome.input).Pairwise fun file file' =>
      (pagePath s file = pagePath s file' ↔ MainPair file file')

variable {s : Settings} {caps : Capabilities} {w : Workspace} {file file' : String}

theorem names_apart (h : Text.endsWith (base file) ".proto" = true)
    (h' : Text.endsWith (base file') ".proto" = true) (hne : base file ≠ base file')
    (ext : String) :
    SchemaPage.fileName file ext = SchemaPage.fileName file' ext ↔ MainPair file file' := by
  rw [SchemaPage.fileName_eq_iff h h']
  exact ⟨fun hshared => hshared.resolve_left hne, .inr⟩

/-- With an extension that is a name, pages share a path if they share a name. -/
theorem pagePath_eq_iff (hext : IsName (Page.normalExtension s.extension).toList)
    (h : Text.endsWith (base file) ".proto" = true)
    (h' : Text.endsWith (base file') ".proto" = true) :
    pagePath s file = pagePath s file' ↔
      SchemaPage.fileName file s.extension = SchemaPage.fileName file' s.extension := by
  -- a page lies right below the output directory, under its name
  have hplace : ∀ f, Text.endsWith (base f) ".proto" = true →
      Place.ofPath (pagePath s f) =
        Place.ofPath s.proto.outputDir ++ [SchemaPage.fileName f s.extension] := by
    intro f hf
    exact Place.ofPath_join _ (by simpa using SchemaPage.isName_fileName hf hext)
  constructor
  · intro heq
    have hboth := congrArg Place.ofPath heq
    rw [hplace file h, hplace file' h'] at hboth
    exact (List.cons.inj (List.append_cancel_left hboth)).1
  · intro heq
    rw [pagePath, pagePath, heq]

/-- The page of a file that succeeds is generated at its turn, and it stays where no later page goes
to its path. -/
theorem exists_page_kept {files : List String} {before after : List (Outcome Failure)}
    {o : Outcome Failure}
    (hdone : ((documentAll s caps files { kind := "proto" }).run w).1.2 = none)
    (houtcomes : ((documentAll s caps files { kind := "proto" }).run w).1.1.outcomes =
      before ++ o :: after)
    (hsuccess : o.isFailure = false) :
    ∃ page,
      ((generate s caps o.input).run (turn s caps w (before.map Outcome.input))).1 = .ok page ∧
        o.pages = [page.name] ∧ page.name = SchemaPage.fileName o.input s.extension ∧
        (Spares s caps w (pagePath s o.input) →
          (∀ o' ∈ after, o'.isFailure = false → pagePath s o'.input ≠ pagePath s o.input) →
          ((documentAll s caps files { kind := "proto" }).run w).2.files.read
            (join [s.proto.outputDir, page.name]) = .ok (.ofText page.content)) := by
  rcases exists_step_of_outcome hdone houtcomes with ⟨r, r₁, w₁, rest, hsetting, hturn, hr₁, hrun⟩
  have ho := outcome_eq hdone houtcomes
  have hgenerate := (run_generate s caps o.input (turn s caps w (before.map Outcome.input))).1
  have hwritten := hturn.files
  cases hgenerated : generated s caps o.input (turn s caps w (before.map Outcome.input)) with
  | error e =>
      rw [ho, hgenerated] at hsuccess
      cases hsuccess
  | ok page =>
      rw [hgenerated] at ho hgenerate hwritten
      have hname := name_of_generated hgenerated
      refine ⟨page, hgenerate, by rw [ho]; rfl, hname, ?_⟩
      intro hspares hlater
      have hpath : join [s.proto.outputDir, page.name] = pagePath s o.input := by
        rw [pagePath, hname]
      have hclean : IsClean (pagePath s o.input) :=
        isClean_join_of_ne (FileTree.ne_empty_of_save hwritten)
      have hread := FileTree.read_save hclean hwritten
      -- the page is there after its turn, and the turns after it leave it alone
      rw [FileTree.read_eq_ok_iff_look] at hread
      rw [hpath, FileTree.read_eq_ok_iff_look, hrun]
      rw [hrun] at hdone houtcomes
      have hafter : ((documentAll s caps rest r₁).run w₁).1.1.outcomes = r₁.outcomes ++ after := by
        rw [houtcomes, hr₁, List.append_assoc, List.singleton_append]
      have hstill : Spares s caps w₁ (pagePath s o.input) :=
        (hspares.of_sameSetting hsetting).of_sameSetting hturn.setting
      exact look_documentAll hdone hafter hstill hclean hlater hread

/-- A run that ends without a failure keeps the pages that no later one replaces. -/
theorem pages_kept (s : Settings) (caps : Capabilities) (w : Workspace)
    (hdone : ((run s caps).run w).1.2 = none) : KeepsPages s caps w := by
  constructor
  case kept =>
    intro before o after houtcomes hsuccess
    have hreported : ((run s caps).run w).1.1.outcomes ≠ [] := by
      rw [houtcomes]
      exact List.append_ne_nil_of_right_ne_nil _ (List.cons_ne_nil o after)
    rcases exists_inputs_of_outcomes hreported with ⟨hdir, files, hinputs⟩
    rcases run_dir s caps hdir hinputs with ⟨hresult, hfinal⟩
    rw [hresult] at hdone houtcomes
    rw [hfinal]
    exact exists_page_kept hdone houtcomes hsuccess
  case names =>
    intro file file' h h' hne
    exact names_apart h h' hne s.extension
  case paths =>
    intro hproper hplain hext
    by_cases hempty : ((run s caps).run w).1.1.outcomes = []
    · rw [hempty]
      exact .nil
    · rcases exists_inputs_of_outcomes hempty with ⟨hdir, files, hinputs⟩
      rw [(run_dir s caps hdir hinputs).1] at hdone ⊢
      rcases outcomes_documentAll hdone with ⟨outcomes, houtcomes, hfiles⟩
      rw [houtcomes, List.nil_append, hfiles]
      -- the files of a directory have different names, which settles each pair of them
      refine (pairwise_inputs hproper hdir hplain hinputs).imp fun {file file'} hpair => ?_
      rcases hpair with ⟨h, h', hne⟩
      rw [pagePath_eq_iff hext h h', names_apart h h' hne]

/-! ### Two runs without programs -/

/-- The page of the first of two files is there in the end. -/
theorem pages_kept_greeter :
    ∃ page,
      ((generate (plainRun "proto") {} "proto/greeter.proto").run (greeterWorkspace "proto")).1 =
          .ok page ∧
        ((run (plainRun "proto") {}).run (greeterWorkspace "proto")).2.files.read
          (join ["out", page.name]) = .ok (.ofText page.content) := by
  have hdir : (greeterWorkspace "proto").files.isDir "proto" = true := by decide
  have hinputs :=
    inputs?_eq (show (greeterWorkspace "proto").files.Proper by decide) hdir (by decide)
  rw [namesIn_greeter] at hinputs
  have hresult := (run_dir (plainRun "proto") {} hdir hinputs).1
  have hreport : ((run (plainRun "proto") {}).run (greeterWorkspace "proto")).1 =
      ({ kind := "proto"
         outcomes :=
           [] ++ { input := "proto/greeter.proto", source := "parser", pages := ["greeter.md"] } ::
             [{ input := "proto/zoo.proto", source := "parser", pages := ["zoo.md"] }] },
        none) := by
    rw [hresult]
    decide +kernel
  have hdone := congrArg Prod.snd hreport
  have houtcomes := congrArg (fun result => result.1.outcomes) hreport
  have hkeeps := pages_kept (plainRun "proto") {} (greeterWorkspace "proto") hdone
  rcases hkeeps.kept _ _ _ houtcomes rfl with
    ⟨page, hgenerate, -, -, hkept⟩
  refine ⟨page, hgenerate, hkept (fun huses => absurd huses (by decide)) fun o ho _ => ?_⟩
  rw [List.mem_singleton.1 ho]
  decide

/-- A directory with a definition file that has the name of the main page, and with the file that
the main page is made of. -/
def mainWorkspace : Workspace :=
  { greeterWorkspace "proto" with
    files :=
      { entries :=
          [(["proto"], .dir),
            (["proto", "api.proto"], .file (.ofText "message Hello \x7b\n\x7d\n")),
            (["proto", "service.proto"], .file (.ofText "message Zoo \x7b\n\x7d\n"))] } }

/-- Both files succeed and report the same page, which is not the one generated from the first. -/
theorem main_page_replaced :
    ((run (plainRun "proto") {}).run mainWorkspace).1 =
        ({ kind := "proto"
           outcomes :=
             [{ input := "proto/api.proto", source := "parser", pages := ["api.md"] },
               { input := "proto/service.proto", source := "parser", pages := ["api.md"] }] },
          none) ∧
      ∃ page,
        ((generate (plainRun "proto") {} "proto/api.proto").run mainWorkspace).1 = .ok page ∧
          page.name = "api.md" ∧
          ((run (plainRun "proto") {}).run mainWorkspace).2.files.read (join ["out", page.name]) ≠
            .ok (.ofText page.content) := by
  have hdir : mainWorkspace.files.isDir "proto" = true := by decide
  have hinputs := inputs?_eq (show mainWorkspace.files.Proper by decide) hdir (by decide)
  have hnames : namesIn mainWorkspace.files "proto" = ["api.proto", "service.proto"] := by
    rw [namesIn, FileTree.children, FileTree.below_eq_of_sorted rfl (by decide)]
    decide
  rw [hnames] at hinputs
  rcases run_dir (plainRun "proto") {} hdir hinputs with ⟨hresult, hfinal⟩
  rw [hresult, hfinal]
  refine ⟨by decide +kernel, ?_⟩
  -- the page of the first file, which is nowhere in the end
  let page : Generated :=
    { name := "api.md"
      content :=
        "---\ntitle: api API\ndescription: gRPC API documentation for api\n" ++
          "sidebar:\n  order: 1\n---\n\n## Messages\n\n### `Hello`\n\n---\n\n"
      source := "parser" }
  exact ⟨page, by decide +kernel, rfl, by decide +kernel⟩

end ProtoRun
end ApiPages

import ApiPages.Proofs.Run.Pages
import ApiPages.Proofs.Tool.Documents
import ApiPages.Run.Proto

/-!
# Turns of definition files

Definition files are documented one after the other.  Each has its turn, in a workspace that those
before it have left.

* `ProtoRun.run_generate` says what is generated from one file: the document of a program, or what
  the built-in reader makes of the file;
* `ProtoRun.Step` is one turn that does not end the run, and `ProtoRun.documentAll_step` says that
  every other turn ends it;
* `ProtoRun.documentAll_append` takes a run apart at a turn, `ProtoRun.look_documentAll` is its
  frame.
-/

namespace ApiPages

open SlashPath

namespace ProtoRun

/-! ## One file -/

/-- Where the page of a file goes. -/
def pagePath (s : Settings) (file : String) : String :=
  join [s.proto.outputDir, SchemaPage.fileName file s.extension]

/-- What the built-in reader makes of a file. -/
def builtIn (f : HeaderFormat) (s : Settings) (files : FileTree) (file : String) :
    Except Failure Generated :=
  match schemaOf files file with
  | .error e => .error e
  | .ok schema =>
      .ok {
        name := SchemaPage.fileName file s.extension
        content := (SchemaPage.page file schema s.extension).content f
        source := "parser" }

/-- The page made of a document. -/
def documentPage (f : HeaderFormat) (s : Settings) (file document : String) : Generated where
  name := SchemaPage.fileName file s.extension
  content := FrontMatter.ensure f document (SchemaPage.toolFrontMatter file)
  source := "protoc-gen-doc"

/-- The document of a program, if one is used and succeeds. -/
def document? (s : Settings) (caps : Capabilities) (file : String) (w : Workspace) :
    Option String :=
  if s.proto.useTool && caps.protoTool then ((Tool.protocDocument file).run w).1.toOption else none

/-- The workspace once a program has been tried, if one is used. -/
def tried (s : Settings) (caps : Capabilities) (file : String) (w : Workspace) : Workspace :=
  if s.proto.useTool && caps.protoTool then ((Tool.protocDocument file).run w).2 else w

/-- What is generated from a file. -/
def generated (s : Settings) (caps : Capabilities) (file : String) (w : Workspace) :
    Except Failure Generated :=
  match document? s caps file w with
  | some document => .ok (documentPage w.formats.headers s file document)
  | none => builtIn w.formats.headers s (tried s caps file w).files file

variable {s : Settings} {caps : Capabilities} {file path : String} {files rest : List String}
  {r r' : Report Failure} {w w' : Workspace} {page : Generated} {n : FileNode}

/-- Comparing a file with what was read from it leaves a trace and no more. -/
theorem run_crossCheck (file : String) (schema : Schema) (w : Workspace) :
    w.SameSetting ((crossCheck file schema).run w).2 ∧
      ((crossCheck file schema).run w).2.files = w.files := by
  unfold crossCheck
  rw [Action.run_bind, Action.run_get]
  dsimp only
  cases findings? w file schema with
  | none =>
      exact ⟨w.sameSetting_with .., rfl⟩
  | some findings =>
      dsimp only
      rw [List.forM_eq_forM]
      induction findings generalizing w with
      | nil =>
          exact ⟨.refl w, rfl⟩
      | cons f rest ih =>
          rw [List.forM_cons, Action.run_bind, Action.run_record]
          rcases ih _ with ⟨hsame, hfiles⟩
          exact ⟨(w.sameSetting_with ..).trans hsame, hfiles⟩

theorem run_generateBuiltIn (s : Settings) (file : String) (w : Workspace) :
    ((generateBuiltIn s file).run w).1 = builtIn w.formats.headers s w.files file ∧
      w.SameSetting ((generateBuiltIn s file).run w).2 ∧
      ((generateBuiltIn s file).run w).2.files = w.files := by
  unfold generateBuiltIn builtIn
  rw [Action.run_bind, Action.run_get]
  dsimp only
  cases schemaOf w.files file with
  | error e =>
      exact ⟨rfl, .refl w, rfl⟩
  | ok schema =>
      dsimp only
      split
      · exact ⟨rfl, run_crossCheck file schema w⟩
      · exact ⟨rfl, .refl w, rfl⟩

theorem sameSetting_tried (s : Settings) (caps : Capabilities) (file : String) (w : Workspace) :
    w.SameSetting (tried s caps file w) := by
  unfold tried
  split
  · exact Tool.keeps_protocDocument file w
  · exact .refl w

/-- Generating the page of a file changes files only by trying a program. -/
theorem run_generate (s : Settings) (caps : Capabilities) (file : String) (w : Workspace) :
    ((generate s caps file).run w).1 = generated s caps file w ∧
      w.SameSetting ((generate s caps file).run w).2 ∧
      ((generate s caps file).run w).2.files = (tried s caps file w).files := by
  have htried := sameSetting_tried s caps file w
  unfold tried at htried
  unfold generate generated document? tried
  split at htried
  · next huses =>
      -- a program that fails leaves its trace before the built-in reader has its turn
      rw [if_pos huses, if_pos huses, if_pos huses, Action.run_bind]
      cases ((Tool.protocDocument file).run w).1 with
      | ok document =>
          dsimp only
          rw [Action.run_bind, Action.run_get, htried.formats]
          exact ⟨rfl, htried, rfl⟩
      | error e =>
          dsimp only
          rw [Action.run_bind, Action.run_record]
          rcases run_generateBuiltIn s file
            { ((Tool.protocDocument file).run w).2 with log := _ } with
            ⟨hresult, hsame, hfiles⟩
          rw [← htried.formats]
          exact ⟨hresult, htried.trans ((Workspace.sameSetting_with ..).trans hsame), hfiles⟩
  · next hspared =>
      rw [if_neg hspared, if_neg hspared, if_neg hspared]
      exact run_generateBuiltIn s file w

/-- Whatever generates a page, the file alone decides on its name. -/
theorem name_of_generated (h : generated s caps file w = .ok page) :
    page.name = SchemaPage.fileName file s.extension := by
  unfold generated at h
  cases hdocument : document? s caps file w with
  | some document =>
      rw [hdocument] at h
      cases h
      rfl
  | none =>
      rw [hdocument] at h
      dsimp only [builtIn] at h
      split at h
      · cases h
      · cases h
        rfl

/-- The programs of a run spare a path, if it uses them. -/
def Spares (s : Settings) (caps : Capabilities) (w : Workspace) (path : String) : Prop :=
  (s.proto.useTool && caps.protoTool) = true → Tool.Spares w.tools w.scratch path

theorem Spares.of_sameSetting (h : Spares s caps w path) (hsame : w.SameSetting w') :
    Spares s caps w' path := by
  unfold Spares
  rw [hsame.tools, hsame.scratch]
  exact h

theorem look_tried (file : String) (h : Spares s caps w path) (hclean : IsClean path)
    (hlook : w.files.look path = .ok n) : (tried s caps file w).files.look path = .ok n := by
  unfold tried
  split
  · next huses =>
      exact Tool.look_protocDocument (h huses) hclean file hlook
  · exact hlook

/-! ## One turn -/

/-- How a file is reported. -/
def outcomeOf (file : String) : Except Failure Generated → Outcome Failure
  | .error e => { input := file, failure? := some e }
  | .ok page => { input := file, source := page.source, pages := [page.name] }

/-- A turn that does not end the run: the file is reported, and a page that was generated is
written. -/
structure Step (s : Settings) (caps : Capabilities) (file : String) (r : Report Failure)
    (w : Workspace) (r₁ : Report Failure) (w₁ : Workspace) : Prop where
  setting : w.SameSetting w₁
  report : r₁ = r.add (outcomeOf file (generated s caps file w))
  files :
    match generated s caps file w with
    | .error _ => w₁.files = (tried s caps file w).files
    | .ok page =>
        (tried s caps file w).files.save (pagePath s file) (.ofText page.content) = .ok w₁.files

/-- Why a run ends before its last file. -/
inductive Ends (w : Workspace) : Failure → Prop where
  | cancelled : w.isCancelled = true → Ends w .cancelled
  | write (path : String) (e : OsError) : Ends w (.write path e)

/-- What remains of a turn, and of the turns after it, once the page is generated. -/
def finish (s : Settings) (caps : Capabilities) (file : String) (rest : List String)
    (r : Report Failure) : Except Failure Generated → Action (Report Failure × Option Failure)
  | .error e => do
      Action.record .error "failed to document proto file"
        [("file", .text file), ("error", .failure e)]
      documentAll s caps rest (r.add { input := file, failure? := some e })
  | .ok page => do
      match ← Action.writePage s.proto.outputDir page.name (.ofText page.content) with
      | some e => return (r, some e)
      | none =>
          Action.record .info "generated proto documentation"
            [("file", .text file), ("page", .text page.name), ("source", .text page.source)]
          documentAll s caps rest
            (r.add { input := file, source := page.source, pages := [page.name] })

/-- Unless a run is cancelled, a turn ends it with a page that cannot be written, or it is a step
and the others have their turns after it. -/
theorem documentAll_turn (s : Settings) (caps : Capabilities) (file : String) (r : Report Failure)
    {w : Workspace} (hgoing : w.isCancelled = false) :
    (∃ page e, generated s caps file w = .ok page ∧
      (tried s caps file w).files.save (pagePath s file) (.ofText page.content) = .error e ∧
      ∀ rest, ((documentAll s caps (file :: rest) r).run w).1 =
        (r, some (.write (pagePath s file) e))) ∨
      ∃ r₁ w₁, Step s caps file r w r₁ w₁ ∧
        ∀ rest, (documentAll s caps (file :: rest) r).run w =
          (documentAll s caps rest r₁).run w₁ := by
  rcases run_generate s caps file w with ⟨hresult, hsame, hfiles⟩
  have hturn : ∀ rest, (documentAll s caps (file :: rest) r).run w =
      (finish s caps file rest r (generated s caps file w)).run
        ((generate s caps file).run w).2 := by
    intro rest
    rw [documentAll, Action.run_bind, Action.run_get]
    dsimp only
    rw [if_neg (by rw [hgoing]; exact Bool.false_ne_true), Action.run_bind, hresult]
    rfl
  have hlogged : ∀ log t, w.SameSetting { ((generate s caps file).run w).2 with files := t, log } :=
    fun log t => hsame.trans (Workspace.sameSetting_with ..)
  cases hgenerated : generated s caps file w with
  | error e =>
      -- a file that fails is reported, and the run goes on
      refine Or.inr ⟨r.add { input := file, failure? := some e }, ?failed,
        ⟨?setting, ?report, ?files⟩, fun rest => ?turn⟩
      case turn =>
        rw [hturn, hgenerated, finish, Action.run_bind, Action.run_record]
      case setting =>
        exact hlogged _ _
      case report =>
        rw [hgenerated]
        rfl
      case files =>
        rw [hgenerated]
        exact hfiles
  | ok page =>
      have hpath : join [s.proto.outputDir, page.name] = pagePath s file := by
        rw [pagePath, name_of_generated hgenerated]
      cases hsave : (tried s caps file w).files.save (pagePath s file) (.ofText page.content) with
      | error e =>
          -- only a page that cannot be written ends the run
          have hwrite := hsave
          rw [← hfiles, ← hpath] at hwrite
          refine Or.inl ⟨page, e, rfl, hsave, fun rest => ?_⟩
          rw [hturn, hgenerated, finish, Action.run_bind, Action.run_writePage_error hwrite,
            ← hpath]
          rfl
      | ok t =>
          have hwrite := hsave
          rw [← hfiles, ← hpath] at hwrite
          refine Or.inr ⟨r.add { input := file, source := page.source, pages := [page.name] },
            ?written, ⟨?setting, ?report, ?files⟩, fun rest => ?turn⟩
          case turn =>
            rw [hturn, hgenerated, finish, Action.run_bind, Action.run_writePage_ok hwrite]
            dsimp only
            rw [Action.run_bind, Action.run_record]
          case setting =>
            exact hlogged _ _
          case report =>
            rw [hgenerated]
            rfl
          case files =>
            rw [hgenerated]
            exact hsave

/-- A turn ends the run, or it is a step and the others have their turns after it. -/
theorem documentAll_step (s : Settings) (caps : Capabilities) (file : String) (r : Report Failure)
    (w : Workspace) :
    (∃ e, Ends w e ∧ ∀ rest, ((documentAll s caps (file :: rest) r).run w).1 = (r, some e)) ∨
      w.isCancelled = false ∧ ∃ r₁ w₁, Step s caps file r w r₁ w₁ ∧
        ∀ rest, (documentAll s caps (file :: rest) r).run w =
          (documentAll s caps rest r₁).run w₁ := by
  cases hcancelled : w.isCancelled with
  | true =>
      -- a cancelled run ends before the file is looked at
      refine Or.inl ⟨.cancelled, .cancelled hcancelled, fun rest => ?_⟩
      rw [documentAll, Action.run_bind, Action.run_get]
      dsimp only
      rw [if_pos hcancelled, Action.run_pure]
  | false =>
      rcases documentAll_turn s caps file r hcancelled with ⟨_, e, _, _, hends⟩ | hstep
      · exact Or.inl ⟨_, .write (pagePath s file) e, hends⟩
      · exact Or.inr ⟨rfl, hstep⟩

variable {s : Settings} {caps : Capabilities} {file path : String} {files rest : List String}
  {r r₁ : Report Failure} {w w₁ : Workspace} {n : FileNode}

theorem outcomeOf_input (file : String) (result : Except Failure Generated) :
    (outcomeOf file result).input = file := by
  cases result <;> rfl

theorem Step.outcomes (h : Step s caps file r w r₁ w₁) :
    r₁.outcomes = r.outcomes ++ [outcomeOf file (generated s caps file w)] := by
  rw [h.report, Report.add]

/-- A turn leaves alone what a path leads to that programs spare and that its page does not go
to. -/
theorem Step.look (h : Step s caps file r w r₁ w₁) (hspares : Spares s caps w path)
    (hclean : IsClean path)
    (hpage : (outcomeOf file (generated s caps file w)).isFailure = false → pagePath s file ≠ path)
    (hlook : w.files.look path = .ok n) : w₁.files.look path = .ok n := by
  have htried := look_tried file hspares hclean hlook
  have hfiles := h.files
  cases hgenerated : generated s caps file w with
  | error e =>
      rw [hgenerated] at hfiles
      rw [hfiles]
      exact htried
  | ok page =>
      rw [hgenerated] at hfiles hpage
      have hpath : IsClean (pagePath s file) :=
        isClean_join_of_ne (FileTree.ne_empty_of_save hfiles)
      rcases FileTree.look_eq_ok_iff_leads.1 htried with ⟨p, hleads⟩
      refine FileTree.look_eq_ok_iff_leads.2 ⟨p, hleads.save hpath hfiles ?_⟩
      rw [((FileTree.resolve_eq_ok_iff hclean).1 hleads.resolve).1]
      intro hplace
      exact hpage rfl (Place.eq_of_ofPath_eq hclean hpath hplace).symm

/-! ## All turns -/

/-- The workspace once the given files have had their turns. -/
def turn (s : Settings) (caps : Capabilities) (w : Workspace) (files : List String) : Workspace :=
  ((documentAll s caps files { kind := "proto" }).run w).2

/-- The first turn of a run that is not ended is a step. -/
theorem exists_step_of_done (h : ((documentAll s caps (file :: rest) r).run w).1.2 = none) :
    ∃ r₁ w₁, Step s caps file r w r₁ w₁ ∧
      ∀ rest', (documentAll s caps (file :: rest') r).run w =
        (documentAll s caps rest' r₁).run w₁ := by
  rcases documentAll_step s caps file r w with ⟨e, -, hends⟩ | ⟨-, hstep⟩
  · rw [hends] at h
    cases h
  · exact hstep

/-- A run that goes through some files and then others is a run through the others from where the
first ones leave it. -/
theorem documentAll_append (h : ((documentAll s caps (files ++ rest) r).run w).1.2 = none) :
    ∃ r₁, ((documentAll s caps files r).run w).1 = (r₁, none) ∧
      (documentAll s caps (files ++ rest) r).run w =
        (documentAll s caps rest r₁).run ((documentAll s caps files r).run w).2 := by
  induction files generalizing r w with
  | nil =>
      exact ⟨r, rfl, rfl⟩
  | cons file files ih =>
      rw [List.cons_append] at h ⊢
      rcases exists_step_of_done h with ⟨r₁, w₁, -, hstep⟩
      rw [hstep] at h
      rcases ih h with ⟨r₂, hfiles, hrest⟩
      refine ⟨r₂, ?_, ?_⟩
      · rw [hstep, hfiles]
      · rw [hstep, hstep, hrest]

/-- A run that is not cancelled and writes its pages gets to its last file. -/
theorem documentAll_completes (hgoing : w.isCancelled = false)
    (hwrites : ∀ path e, ((documentAll s caps files r).run w).1.2 ≠ some (.write path e)) :
    ((documentAll s caps files r).run w).1.2 = none := by
  induction files generalizing r w with
  | nil =>
      rfl
  | cons file rest ih =>
      rcases documentAll_step s caps file r w with ⟨e, hends, hrun⟩ | ⟨-, r₁, w₁, hturn, hstep⟩
      · -- neither of the two reasons to end is there
        cases hends with
        | cancelled hcancelled =>
            rw [hgoing] at hcancelled
            cases hcancelled
        | write path e =>
            refine absurd ?_ (hwrites path e)
            rw [hrun]
      · rw [hstep] at hwrites ⊢
        exact ih (hturn.setting.isCancelled.trans hgoing) hwrites

/-- A run that is cancelled reports nothing. -/
theorem documentAll_cancelled (h : w.isCancelled = true) :
    ((documentAll s caps files r).run w).1.1 = r := by
  cases files with
  | nil =>
      rfl
  | cons file rest =>
      rcases documentAll_step s caps file r w with ⟨e, -, hends⟩ | ⟨hgoing, -⟩
      · rw [hends]
      · rw [h] at hgoing
        cases hgoing

/-- A run that is not ended has one outcome for each file, in order. -/
theorem outcomes_documentAll (h : ((documentAll s caps files r).run w).1.2 = none) :
    ∃ outcomes, ((documentAll s caps files r).run w).1.1.outcomes = r.outcomes ++ outcomes ∧
      outcomes.map Outcome.input = files := by
  induction files generalizing r w with
  | nil =>
      exact ⟨[], (List.append_nil _).symm, rfl⟩
  | cons file rest ih =>
      rcases exists_step_of_done h with ⟨r₁, w₁, hturn, hstep⟩
      rw [hstep] at h ⊢
      rcases ih h with ⟨outcomes, hall, hinputs⟩
      refine ⟨outcomeOf file (generated s caps file w) :: outcomes, ?_, ?_⟩
      · rw [hall, hturn.outcomes, List.append_assoc, List.singleton_append]
      · rw [List.map_cons, outcomeOf_input, hinputs]

theorem keeps_documentAll (s : Settings) (caps : Capabilities) (files : List String)
    (r : Report Failure) : Action.Keeps (documentAll s caps files r) := by
  induction files generalizing r with
  | nil =>
      exact Action.keeps_pure _
  | cons file rest ih =>
      rw [documentAll]
      refine Action.keeps_get.bind fun w => ?_
      split
      · exact Action.keeps_pure _
      · refine Action.Keeps.bind (fun w => (run_generate s caps file w).2.1) fun result => ?_
        split
        · exact (Action.keeps_record _ _ _).bind fun _ => ih _
        · refine (Action.keeps_writePage _ _ _).bind fun e? => ?_
          split
          · exact Action.keeps_pure _
          · exact (Action.keeps_record _ _ _).bind fun _ => ih _

/-- A run leaves alone what a path leads to that programs spare and that no page goes to. -/
theorem look_documentAll {outcomes : List (Outcome Failure)}
    (h : ((documentAll s caps files r).run w).1.2 = none)
    (houtcomes : ((documentAll s caps files r).run w).1.1.outcomes = r.outcomes ++ outcomes)
    (hspares : Spares s caps w path) (hclean : IsClean path)
    (hpages : ∀ o ∈ outcomes, o.isFailure = false → pagePath s o.input ≠ path)
    (hlook : w.files.look path = .ok n) :
    ((documentAll s caps files r).run w).2.files.look path = .ok n := by
  induction files generalizing r w outcomes with
  | nil =>
      exact hlook
  | cons file rest ih =>
      rcases exists_step_of_done h with ⟨r₁, w₁, hturn, hstep⟩
      rw [hstep] at h houtcomes ⊢
      rcases outcomes_documentAll h with ⟨later, hall, -⟩
      have hcons : outcomes = outcomeOf file (generated s caps file w) :: later := by
        rw [hall, hturn.outcomes, List.append_assoc, List.singleton_append] at houtcomes
        exact (List.append_cancel_left houtcomes).symm
      rw [hcons] at hpages
      have hfirst := hpages _ (List.mem_cons_self ..)
      rw [outcomeOf_input] at hfirst
      exact ih h hall (hspares.of_sameSetting hturn.setting)
        (fun o ho => hpages o (List.mem_cons_of_mem _ ho)) (hturn.look hspares hclean hfirst hlook)

/-- An outcome was reported by a turn, which starts from what the files before it have left and
leaves the files after it to the rest of the run. -/
theorem exists_step_of_outcome {before after : List (Outcome Failure)} {o : Outcome Failure}
    (hdone : ((documentAll s caps files { kind := "proto" }).run w).1.2 = none)
    (houtcomes : ((documentAll s caps files { kind := "proto" }).run w).1.1.outcomes =
      before ++ o :: after) :
    ∃ r r₁ w₁ rest, w.SameSetting (turn s caps w (before.map Outcome.input)) ∧
      Step s caps o.input r (turn s caps w (before.map Outcome.input)) r₁ w₁ ∧
      r₁.outcomes = before ++ [o] ∧
      (documentAll s caps files { kind := "proto" }).run w =
        (documentAll s caps rest r₁).run w₁ := by
  have hfiles : files = before.map Outcome.input ++ o.input :: after.map Outcome.input := by
    rcases outcomes_documentAll hdone with ⟨outcomes, hall, hinputs⟩
    rw [houtcomes] at hall
    rw [← hinputs, ← hall.trans (List.nil_append _), List.map_append, List.map_cons]
  rw [hfiles] at hdone houtcomes ⊢
  rcases documentAll_append hdone with ⟨r, hbefore, hrest⟩
  have hready : ((documentAll s caps (before.map Outcome.input) { kind := "proto" }).run w).1.2 =
      none := by
    rw [hbefore]
  rw [hrest] at hdone
  rcases exists_step_of_done hdone with ⟨r₁, w₁, hturn, hstep⟩
  have hrun := hrest.trans (hstep _)
  -- both ways of taking the outcomes apart have as many in front
  rw [hstep] at hdone
  rw [hrun] at houtcomes
  rcases outcomes_documentAll hready with ⟨earlier, hearlier, hinputs⟩
  rcases outcomes_documentAll hdone with ⟨later, hlater, -⟩
  rw [hbefore] at hearlier
  have hlength : r.outcomes.length = before.length := by
    have hmap := congrArg List.length hinputs
    rw [List.length_map, List.length_map] at hmap
    rw [hearlier, List.nil_append, hmap]
  rw [hlater, hturn.outcomes, List.append_assoc, List.singleton_append] at houtcomes
  rcases List.append_inj houtcomes hlength with ⟨hsame, hcons⟩
  have ho := (List.cons.inj hcons).1
  refine ⟨r, r₁, w₁, _, keeps_documentAll s caps _ _ w, hturn, ?_, hrun⟩
  rw [hturn.outcomes, hsame, ho]

/-- What is reported of a file is what was generated at its turn. -/
theorem outcome_eq {before after : List (Outcome Failure)} {o : Outcome Failure}
    (hdone : ((documentAll s caps files { kind := "proto" }).run w).1.2 = none)
    (houtcomes : ((documentAll s caps files { kind := "proto" }).run w).1.1.outcomes =
      before ++ o :: after) :
    o = outcomeOf o.input
      (generated s caps o.input (turn s caps w (before.map Outcome.input))) := by
  rcases exists_step_of_outcome hdone houtcomes with ⟨r, r₁, w₁, rest, -, hturn, hr₁, -⟩
  rw [hturn.outcomes] at hr₁
  exact (List.cons.inj (List.append_inj' hr₁ rfl).2).1.symm

/-! ## Whole runs -/

/-- A run over a directory goes through the files that are found there. -/
theorem run_dir (s : Settings) (caps : Capabilities) (hdir : w.files.isDir s.proto.dir = true)
    (hinputs : inputs? w.files s.proto.dir = some files) :
    ((run s caps).run w).1 = ((documentAll s caps files { kind := "proto" }).run w).1 ∧
      ((run s caps).run w).2.files =
        ((documentAll s caps files { kind := "proto" }).run w).2.files := by
  unfold run
  dsimp only
  rw [Action.run_bind, Action.run_files]
  dsimp only
  rw [if_pos hdir, hinputs]
  cases files with
  | nil =>
      dsimp only
      rw [Action.run_bind, Action.run_record]
      exact ⟨rfl, rfl⟩
  | cons file rest =>
      exact ⟨rfl, rfl⟩

/-- A run whose directory makes a broken pattern finds nothing. -/
theorem run_broken (hdir : w.files.isDir s.proto.dir = true)
    (hinputs : inputs? w.files s.proto.dir = none) :
    ((run s caps).run w).1 = ({ kind := "proto" }, some (.badPattern s.proto.dir)) := by
  unfold run
  dsimp only
  rw [Action.run_bind, Action.run_files]
  dsimp only
  rw [if_pos hdir, hinputs]
  rfl

/-- A run without a directory leaves the page that stands for it. -/
theorem run_missing (hdir : w.files.isDir s.proto.dir = false) :
    (run s caps).run w = (writePlaceholder s { kind := "proto" }).run
      ((Action.record .warn "proto directory not found, writing placeholder"
        [("dir", .text s.proto.dir), ("error", .failure .noInput)]).run w).2 := by
  unfold run
  dsimp only
  rw [Action.run_bind, Action.run_files]
  dsimp only
  rw [if_neg (by rw [hdir]; exact Bool.false_ne_true), Action.run_bind]

theorem outcomes_writePlaceholder (s : Settings) (r : Report Failure) (w : Workspace) :
    ((writePlaceholder s r).run w).1.1.outcomes = r.outcomes := by
  unfold writePlaceholder
  dsimp only
  rw [Action.run_bind, Action.run_get]
  dsimp only
  rw [Action.run_bind]
  split <;> rfl

/-- A run that reports on files has gone through those that were found. -/
theorem exists_inputs_of_outcomes (h : ((run s caps).run w).1.1.outcomes ≠ []) :
    w.files.isDir s.proto.dir = true ∧ ∃ files, inputs? w.files s.proto.dir = some files := by
  cases hdir : w.files.isDir s.proto.dir with
  | false =>
      rw [run_missing hdir, outcomes_writePlaceholder] at h
      exact absurd rfl h
  | true =>
      cases hinputs : inputs? w.files s.proto.dir with
      | none =>
          rw [run_broken hdir hinputs] at h
          exact absurd rfl h
      | some files =>
          exact ⟨rfl, files, rfl⟩

end ProtoRun
end ApiPages

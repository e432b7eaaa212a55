import ApiPages.Proofs.Run.Gathering
import ApiPages.Proofs.Run.Pages
import ApiPages.Run.Standard

/-!
# What a run accounts for

Every input of a run that documents type graphs has one outcome, and an input either gets all of its
pages or none.  A graph is rendered at its turn, from the files that the pages before it have left.

* `RustdocRun.rendering` is what becomes of one graph and `RustdocRun.renderings` of a row of
  graphs;
* `RustdocRun.documents` says that going through the graphs reports these renderings and writes
  their pages, one after the other;
* `RustdocRun.getElem?_renderings` says when the turn of a graph does not matter;
* `RustdocRun.run_accounts` puts this together with what gathering does.
-/

namespace ApiPages

open SlashPath

namespace RustdocRun

/-! ## Renderings -/

/-- The pages of a graph as the files are, or the reason for which it has none. -/
def rendering (formats : Formats) (s : Settings) (files : FileTree) (g : GraphInput) :
    Except Failure GraphPages :=
  match treeOf formats.packing files g with
  | .error e => .error e
  | .ok t => .ok { pages := pagesOf s g t, dangling := t.dangling.length }

/-- The files once the pages of a rendering are written. -/
def afterPages (formats : Formats) (s : Settings) (files : FileTree) :
    Except Failure GraphPages → FileTree
  | .error _ => files
  | .ok result =>
      (Page.saveAll formats.headers s.rustdoc.outputDir files result.pages).toOption.getD files

/-- What becomes of graphs that are rendered and written one after the other. -/
def renderings (formats : Formats) (s : Settings) :
    FileTree → List GraphInput → List (Except Failure GraphPages)
  | _, [] => []
  | files, g :: rest =>
      rendering formats s files g ::
        renderings formats s (afterPages formats s files (rendering formats s files g)) rest

def pagesIn (results : List (Except Failure GraphPages)) : List Page :=
  results.flatMap fun
    | .ok result => result.pages
    | .error _ => []

/-- The dangling links of all results that succeeded. -/
def danglingIn : List (Except Failure GraphPages) → Nat
  | [] => 0
  | .ok result :: rest => result.dangling + danglingIn rest
  | .error _ :: rest => danglingIn rest

/-- How a rendering is reported. -/
def outcomeOf (g : GraphInput) : Except Failure GraphPages → Outcome Failure
  | .error e => { input := g.label, failure? := some e }
  | .ok result => { input := g.label, source := "rustdoc", pages := result.pages.map Page.file }

variable {formats : Formats} {s : Settings} {g : GraphInput} {graphs rest : List GraphInput}
  {files : FileTree} {w : Workspace} {label : String} {written : Written}

theorem outcomeOf_input (g : GraphInput) (result : Except Failure GraphPages) :
    (outcomeOf g result).input = g.label := by
  cases result <;> rfl

/-- Each graph has one outcome, under its own label. -/
theorem map_input_outcomes (formats : Formats) (s : Settings) (files : FileTree)
    (graphs : List GraphInput) :
    (List.zipWith outcomeOf graphs (renderings formats s files graphs)).map Outcome.input =
      graphs.map GraphInput.label := by
  induction graphs generalizing files with
  | nil =>
      rfl
  | cons g rest ih =>
      rw [renderings, List.zipWith_cons_cons, List.map_cons, List.map_cons, outcomeOf_input, ih]

/-- A graph that cannot be rendered is reported without pages. -/
theorem pages_of_isFailure {o : Outcome Failure}
    (ho : o ∈ List.zipWith outcomeOf graphs (renderings formats s files graphs))
    (hfailed : o.isFailure = true) :
    o.pages = [] := by
  induction graphs generalizing files with
  | nil =>
      cases ho
  | cons g rest ih =>
      rw [renderings, List.zipWith_cons_cons] at ho
      rcases List.mem_cons.1 ho with rfl | ho
      · cases hrendering : rendering formats s files g with
        | error e =>
            rfl
        | ok result =>
            rw [hrendering] at hfailed
            cases hfailed
      · exact ih ho

/-- The pages that are reported are those of the renderings. -/
theorem flatMap_pages_outcomes (formats : Formats) (s : Settings) (files : FileTree)
    (graphs : List GraphInput) :
    (List.zipWith outcomeOf graphs (renderings formats s files graphs)).flatMap Outcome.pages =
      (pagesIn (renderings formats s files graphs)).map Page.file := by
  induction graphs generalizing files with
  | nil =>
      rfl
  | cons g rest ih =>
      rw [renderings, List.zipWith_cons_cons, List.flatMap_cons, ih]
      cases rendering formats s files g with
      | error e =>
          rfl
      | ok result =>
          rw [pagesIn, pagesIn, List.flatMap_cons, List.map_append]
          rfl

/-! ## One graph -/

/-- Rendering a graph is logged and changes nothing else. -/
theorem run_generate (s : Settings) (g : GraphInput) (w : Workspace) :
    ∃ log, (generate s g).run w = (rendering w.formats s w.files g, { w with log }) := by
  unfold generate rendering
  rw [Action.run_bind, Action.run_get]
  dsimp only
  cases treeOf w.formats.packing w.files g with
  | error e =>
      exact ⟨w.log, rfl⟩
  | ok t =>
      exact ⟨w.log ++ treeRecords g t, rfl⟩

/-- Writes a page and those after it, without a note on a page that is replaced. -/
def writeUnnoted (s : Settings) (label : String) (written : Written) (p : Page) (rest : List Page) :
    Action (Except Failure Written) := do
  let content := p.bytes (← get).formats.headers
  match ← Action.writePage s.rustdoc.outputDir p.file content with
  | some e => return .error e
  | none => writeAll s label ((p.file, label) :: written) rest

/-- The note on a page that is replaced leaves the files as they are. -/
theorem run_writeAll_cons (s : Settings) (label : String) (written : Written) (p : Page)
    (rest : List Page) (w : Workspace) : ∃ log, (writeAll s label written (p :: rest)).run w =
      (writeUnnoted s label written p rest).run { w with log } := by
  rw [writeAll]
  dsimp only
  cases written.lookup p.file with
  | none =>
      exact ⟨w.log, rfl⟩
  | some earlier =>
      dsimp only
      rw [Action.run_bind, Action.run_record]
      exact ⟨_, rfl⟩

/-- What one page does to the writing of all: it cannot be saved, and nothing is written after it,
or it is saved and the other pages have their turns. -/
theorem writeAll_step (s : Settings) (label : String) (written : Written) (p : Page)
    (rest : List Page) (w : Workspace) :
    (∃ e log, w.files.save (p.pathIn s.rustdoc.outputDir) (p.bytes w.formats.headers) = .error e ∧
      (writeAll s label written (p :: rest)).run w =
        (.error (.write (p.pathIn s.rustdoc.outputDir) e), { w with log })) ∨
    ∃ t log, w.files.save (p.pathIn s.rustdoc.outputDir) (p.bytes w.formats.headers) = .ok t ∧
      (writeAll s label written (p :: rest)).run w =
        (writeAll s label ((p.file, label) :: written) rest).run { w with log, files := t } := by
  rcases run_writeAll_cons s label written p rest w with ⟨log, hnote⟩
  rw [hnote, writeUnnoted, Action.run_bind, Action.run_get]
  dsimp only
  rw [Action.run_bind]
  cases hsave : w.files.save (p.pathIn s.rustdoc.outputDir) (p.bytes w.formats.headers) with
  | error e =>
      rw [Action.run_writePage_error (w := { w with log }) hsave]
      exact .inl ⟨e, log, rfl, rfl⟩
  | ok t =>
      rw [Action.run_writePage_ok (w := { w with log }) hsave]
      exact .inr ⟨t, log, rfl, rfl⟩

/-- Writing the pages of a graph saves them all or ends with a page that cannot be written. -/
theorem writeAll_cases (s : Settings) (label : String) (written : Written) (pages : List Page)
    (w : Workspace) :
    (∃ path e, ((writeAll s label written pages).run w).1 = .error (.write path e)) ∨
      (∃ written', ((writeAll s label written pages).run w).1 = .ok written') ∧
        w.SameSetting ((writeAll s label written pages).run w).2 ∧
        Page.saveAll w.formats.headers s.rustdoc.outputDir w.files pages =
          .ok ((writeAll s label written pages).run w).2.files := by
  induction pages generalizing written w with
  | nil =>
      exact Or.inr ⟨⟨written, rfl⟩, .refl w, rfl⟩
  | cons p rest ih =>
      rcases writeAll_step s label written p rest w with ⟨e, log, -, hstep⟩ | ⟨t, log, hsave, hstep⟩
      · rw [hstep]
        exact Or.inl ⟨_, e, rfl⟩
      · rw [hstep]
        rcases ih ((p.file, label) :: written) { w with log, files := t } with
          herror | ⟨hok, hsetting, hrest⟩
        · exact Or.inl herror
        · exact Or.inr ⟨hok, (w.sameSetting_with ..).trans hsetting,
            Page.saveAll_cons_eq_ok.2 ⟨t, hsave, hrest⟩⟩

/-! ## All graphs -/

/-- Going through graphs reports their renderings and writes the pages of these in order. -/
structure Documents (s : Settings) (graphs : List GraphInput) (r : Report Failure) (w : Workspace)
    (done : (Report Failure × Option Failure) × Workspace) : Prop where
  error : done.1.2 = none
  report : done.1.1 =
    { r with
      outcomes :=
        r.outcomes ++ List.zipWith outcomeOf graphs (renderings w.formats s w.files graphs)
      dangling := r.dangling + danglingIn (renderings w.formats s w.files graphs) }
  pages : Page.saveAll w.formats.headers s.rustdoc.outputDir w.files
    (pagesIn (renderings w.formats s w.files graphs)) =
    .ok done.2.files

theorem documents_nil (s : Settings) (r : Report Failure) (w : Workspace) :
    Documents s [] r w ((r, none), w) where
  error := rfl
  report := by
    rw [renderings, List.zipWith_nil_left, List.append_nil]
    exact congrArg (fun n => { r with dangling := n }) (Int.add_zero r.dangling).symm
  pages := rfl

/-- A graph that cannot be rendered is reported, and the others are documented. -/
theorem Documents.failure {r : Report Failure} {e : Failure}
    {done : (Report Failure × Option Failure) × Workspace} {w₁ : Workspace}
    (hformats : w₁.formats = w.formats) (hfiles : w₁.files = w.files)
    (hrendering : rendering w.formats s w.files g = .error e)
    (h : Documents s rest (r.add { input := g.label, failure? := some e }) w₁ done) :
    Documents s (g :: rest) r w done where
  error := h.error
  report := by
    rw [h.report, hformats, hfiles, renderings, hrendering, List.zipWith_cons_cons, Report.add,
      List.append_assoc, List.singleton_append]
    simp [afterPages, outcomeOf, danglingIn]
  pages := by
    have hpages := h.pages
    rw [hformats, hfiles] at hpages
    rw [renderings, hrendering]
    exact hpages

/-- A graph that can be rendered is reported with its pages, and the others are documented from the
files that these leave. -/
theorem Documents.success {r : Report Failure} {result : GraphPages}
    {done : (Report Failure × Option Failure) × Workspace} {w₁ : Workspace}
    (hformats : w₁.formats = w.formats) (hrendering : rendering w.formats s w.files g = .ok result)
    (hsaved : Page.saveAll w.formats.headers s.rustdoc.outputDir w.files result.pages =
      .ok w₁.files)
    (h :
      Documents s rest
        ({ r with dangling := r.dangling + result.dangling }.add
          { input := g.label, source := "rustdoc", pages := result.pages.map Page.file }) w₁ done) :
    Documents s (g :: rest) r w done := by
  have hafter : afterPages w.formats s w.files (rendering w.formats s w.files g) = w₁.files := by
    rw [hrendering, afterPages, hsaved]
    rfl
  constructor
  case error =>
    exact h.error
  case report =>
    rw [h.report, hformats, renderings, hafter, hrendering, List.zipWith_cons_cons, Report.add,
      List.append_assoc, List.singleton_append]
    simp [outcomeOf, danglingIn, Int.add_assoc]
  case pages =>
    have hpages := h.pages
    rw [hformats] at hpages
    rw [renderings, hafter, hrendering]
    exact Page.saveAll_append_eq_ok_iff.2 ⟨w₁.files, hsaved, hpages⟩

/-- What remains of the turn of a graph, and of the turns after it, once its pages are generated. -/
def finish (s : Settings) (written : Written) (g : GraphInput) (rest : List GraphInput)
    (r : Report Failure) : Except Failure GraphPages → Action (Report Failure × Option Failure)
  | .error e => do
      Action.record .error "failed to document type graph"
        [("input", .text g.label), ("error", .failure e)]
      documentAll s written rest (r.add { input := g.label, failure? := some e })
  | .ok result => do
      match ← writeAll s g.label written result.pages with
      | .error e => return (r, some e)
      | .ok written =>
          Action.record .info "generated rustdoc pages"
            [("input", .text g.label), ("pages", .count result.pages.length)]
          documentAll s written rest
            ({ r with dangling := r.dangling + result.dangling }.add
              { input := g.label, source := "rustdoc", pages := result.pages.map Page.file })

/-- A graph is rendered from the files as they are at its turn. -/
theorem run_documentAll_cons (hcancelled : w.isCancelled = false) (written : Written)
    (g : GraphInput) (rest : List GraphInput) (r : Report Failure) :
    ∃ log, (documentAll s written (g :: rest) r).run w =
      (finish s written g rest r (rendering w.formats s w.files g)).run { w with log } := by
  rcases run_generate s g w with ⟨log, hgenerate⟩
  refine ⟨log, ?_⟩
  rw [documentAll, Action.run_bind, Action.run_get]
  dsimp only
  rw [if_neg (by rw [hcancelled]; exact Bool.false_ne_true), Action.run_bind, hgenerate]
  rfl

/-- Unless a page cannot be written, a run that is not cancelled documents all graphs. -/
theorem documents {r : Report Failure} (hcancelled : w.isCancelled = false)
    (hwrite : ∀ path e, ((documentAll s written graphs r).run w).1.2 ≠ some (.write path e)) :
    Documents s graphs r w ((documentAll s written graphs r).run w) := by
  induction graphs generalizing written r w with
  | nil =>
      exact documents_nil s r w
  | cons g rest ih =>
      rcases run_documentAll_cons hcancelled written g rest r with ⟨log, hstep⟩
      rw [hstep] at hwrite ⊢
      cases hrendering : rendering w.formats s w.files g with
      | error e =>
          rw [hrendering] at hwrite
          rw [finish, Action.run_bind, Action.run_record] at hwrite ⊢
          refine Documents.failure ?_ ?_ hrendering (ih ?_ hwrite)
          · rfl
          · rfl
          · exact hcancelled
      | ok result =>
          rw [hrendering] at hwrite
          rw [finish, Action.run_bind] at hwrite ⊢
          rcases writeAll_cases s g.label written result.pages { w with log } with
            ⟨path, e, herror⟩ | ⟨⟨written', hok⟩, hsetting, hsaved⟩
          · rw [herror] at hwrite
            exact absurd rfl (hwrite path e)
          · rw [hok] at hwrite ⊢
            dsimp only at hwrite ⊢
            rw [Action.run_bind, Action.run_record] at hwrite ⊢
            refine Documents.success ?_ hrendering ?_ (ih ?_ hwrite)
            · exact hsetting.formats
            · exact hsaved
            · exact hsetting.isCancelled.trans hcancelled

/-! ## Graphs that no page touches -/

/-- A graph is rendered alike from files in which it is the same. -/
theorem rendering_congr {files' : FileTree}
    (h : ∀ path, g.source = .file path → files'.read path = files.read path) :
    rendering formats s files' g = rendering formats s files g := by
  have hindex : indexOf formats.packing files' g.source =
      indexOf formats.packing files g.source := by
    cases hsource : g.source with
    | data content =>
        rfl
    | file path =>
        rw [indexOf, indexOf, h path hsource]
  rw [rendering, rendering, treeOf, treeOf, hindex]

/-- A graph is given as bytes, or in a file that is there and that none of the pages is written
to. -/
def IsUntouched (s : Settings) (files : FileTree) (pages : List Page) (g : GraphInput) : Prop :=
  ∀ path, g.source = .file path → ∃ p n, files.Leads path p n ∧
    ∀ page ∈ pages, Place.ofPath (page.pathIn s.rustdoc.outputDir) ≠ p

theorem IsUntouched.of_append {first later : List Page} (h : IsUntouched s files (first ++ later) g)
    {files₁ : FileTree}
    (hsaved : Page.saveAll formats.headers s.rustdoc.outputDir files first = .ok files₁) :
    rendering formats s files₁ g = rendering formats s files g ∧ IsUntouched s files₁ later g := by
  constructor
  · refine rendering_congr fun path hpath => ?_
    rcases h path hpath with ⟨p, n, hleads, haway⟩
    have hstays := Page.leads_saveAll hsaved hleads
      fun page hpage => haway page (List.mem_append_left _ hpage)
    exact hleads.read_eq hstays
  · intro path hpath
    rcases h path hpath with ⟨p, n, hleads, haway⟩
    refine ⟨p, n, ?_, fun page hpage => haway page (List.mem_append_right _ hpage)⟩
    exact Page.leads_saveAll hsaved hleads fun page hpage =>
      haway page (List.mem_append_left _ hpage)

/-- A graph that no page touches is rendered as if it were the only one. -/
theorem getElem?_renderings {files' : FileTree} {i : Nat} (hg : graphs[i]? = some g)
    (hsaved : Page.saveAll formats.headers s.rustdoc.outputDir files
      (pagesIn (renderings formats s files graphs)) = .ok files')
    (h : IsUntouched s files (pagesIn (renderings formats s files graphs)) g) :
    (renderings formats s files graphs)[i]? = some (rendering formats s files g) := by
  induction graphs generalizing files i with
  | nil =>
      cases hg
  | cons first rest ih =>
      rw [renderings] at hsaved h ⊢
      cases i with
      | zero =>
          cases hg
          rfl
      | succ i =>
          rw [List.getElem?_cons_succ] at hg ⊢
          cases hrendering : rendering formats s files first with
          | error e =>
              rw [hrendering] at hsaved h
              exact ih hg hsaved h
          | ok result =>
              rw [hrendering] at hsaved h
              rcases Page.saveAll_append_eq_ok_iff.1 hsaved with ⟨files₁, hpages, hrest⟩
              have hafter : afterPages formats s files (.ok result) = files₁ := by
                rw [afterPages, hpages]
                rfl
              rw [hafter] at hrest h ⊢
              rcases h.of_append hpages with ⟨hsame, hlater⟩
              rw [ih hg hrest hlater, hsame]

/-! ## Whole runs -/

/-- What a run has gathered before it renders the first graph. -/
def gathered (s : Settings) (caps : Capabilities) (q : RustdocRequest) (w : Workspace) :
    List GraphInput × FileTree :=
  let run := (gather s caps q { kind := "rustdoc" }).run w
  (run.1.1.1, run.2.files)

/-- The renderings of a run. -/
def results (s : Settings) (caps : Capabilities) (q : RustdocRequest) (w : Workspace) :
    List (Except Failure GraphPages) :=
  renderings w.formats s (gathered s caps q w).2 (gathered s caps q w).1

/-- A report and the files of a run account for its inputs. -/
structure Accounts (s : Settings) (caps : Capabilities) (q : RustdocRequest) (w : Workspace)
    (report : Report Failure) (t : FileTree) : Prop where
  /-- Each input has one outcome. -/
  inputs : (report.outcomes.map Outcome.input).Perm (q.inputs s)
  /-- An input without a graph has failed; the others are reported as their graphs are rendered. -/
  outcomes : ∃ failed, (∀ o ∈ failed, o.isFailure = true) ∧
    report.outcomes = failed ++ List.zipWith outcomeOf (gathered s caps q w).1 (results s caps q w)
  /-- An input that has failed has no pages. -/
  failures : ∀ o ∈ report.outcomes, o.isFailure = true → o.pages = []
  /-- The pages that are reported are those that were rendered, in order. -/
  reported : report.outcomes.flatMap Outcome.pages = (pagesIn (results s caps q w)).map Page.file
  /-- Graphs are rendered in the order of the inputs. -/
  order : ((gathered s caps q w).1.map GraphInput.label).Sublist (q.inputs s)
  /-- A file in the output directory is the page rendered last for its place, or it was there before
  the run and no page was rendered for its place. -/
  files : ∀ p b, Place.ofPath s.rustdoc.outputDir <+: p → (t.node? p = some (.file b) ↔
    match Page.lastAt? s.rustdoc.outputDir (pagesIn (results s caps q w)) p with
    | some page => b = page.bytes w.formats.headers
    | none => w.files.node? p = some (.file b))
  /-- The page rendered last for a place can be read there. -/
  pages : ∀ p page,
    Page.lastAt? s.rustdoc.outputDir (pagesIn (results s caps q w)) p = some page →
      t.read (page.pathIn s.rustdoc.outputDir) = .ok (page.bytes w.formats.headers)
  dangling : report.dangling = danglingIn (results s caps q w)
  /-- A graph that no page touches is rendered from the files as they were gathered. -/
  untouched : ∀ (i : Nat) g, (gathered s caps q w).1[i]? = some g →
    IsUntouched s (gathered s caps q w).2 (pagesIn (results s caps q w)) g →
      (results s caps q w)[i]? = some (rendering w.formats s (gathered s caps q w).2 g)

/-- A run that is not cancelled and has cargo if it needs it accounts for its inputs, unless a page
cannot be written or cargo and the archive write into the output directory. -/
theorem run_accounts (s : Settings) (caps : Capabilities) (q : RustdocRequest) (w : Workspace)
    (hcancelled : w.isCancelled = false) (hcargo : q.needsCargo = true → caps.cargo = true)
    (hapart : q.needsCargo = true → Apart s w (Place.ofPath s.rustdoc.outputDir))
    (hwrite : ∀ path e, ((run s caps q).run w).1.2 ≠ some (.write path e)) :
    ((run s caps q).run w).1.2 = none ∧
      Accounts s caps q w ((run s caps q).run w).1.1 ((run s caps q).run w).2.files := by
  rcases gather_spec hcancelled hcargo hapart { kind := "rustdoc" } with ⟨hnone, hgathers⟩
  rcases hgathers.shares with ⟨failed, hshares, hreport⟩
  have hrun : (run s caps q).run w =
      (documentAll s [] (gathered s caps q w).1 { kind := "rustdoc", outcomes := failed }).run
        ((gather s caps q { kind := "rustdoc" }).run w).2 := by
    have hgathered : ((gather s caps q { kind := "rustdoc" }).run w).1 =
        (((gathered s caps q w).1, { kind := "rustdoc", outcomes := failed }), none) :=
      Prod.ext (Prod.ext rfl hreport) hnone
    unfold run
    rw [Action.run_bind, hgathered]
  rw [hrun] at hwrite ⊢
  -- what was gathered has the failures in front, documenting adds one outcome for each graph
  have hformats : ((gather s caps q { kind := "rustdoc" }).run w).2.formats = w.formats :=
    hgathers.setting.formats
  obtain ⟨herror, hreported, hsaved⟩ :=
    documents (hgathers.setting.isCancelled.trans hcancelled) hwrite
  rw [hformats] at hreported hsaved
  refine ⟨herror, ?_⟩
  constructor
  case inputs =>
    rw [hreported, List.map_append, map_input_outcomes]
    exact hshares.perm
  case outcomes =>
    rw [hreported]
    exact ⟨failed, fun o ho => (hshares.isFailure o ho).1, rfl⟩
  case failures =>
    intro o ho hfailed
    rw [hreported] at ho
    rcases List.mem_append.1 ho with ho | ho
    · exact (hshares.isFailure o ho).2
    · exact pages_of_isFailure ho hfailed
  case reported =>
    have hnone : failed.flatMap Outcome.pages = [] :=
      List.flatMap_eq_nil_iff.2 fun o ho => (hshares.isFailure o ho).2
    rw [hreported, List.flatMap_append, hnone, List.nil_append]
    exact flatMap_pages_outcomes ..
  case order =>
    exact hshares.order
  case files =>
    -- gathering leaves the output directory alone, so only the pages make a difference
    intro p b hp
    rw [Page.node?_saveAll hsaved p b, ← hgathers.files p hp]
    rfl
  case pages =>
    intro p page hpage
    exact Page.read_saveAll hsaved hpage
  case dangling =>
    rw [hreported]
    exact Int.zero_add _
  case untouched =>
    intro i g hg huntouched
    exact getElem?_renderings hg hsaved huntouched

/-! ### A crate with a binary that cannot be built -/

/-- The graph of a crate that has nothing but its own documentation. -/
def bareGraph (docs : String) : String :=
  "\x7b\"root\":0,\"index\":\x7b\"0\":\x7b\"docs\":\"" ++ docs ++ "\"," ++
    "\"inner\":\x7b\"module\":\x7b\x7d\x7d\x7d\x7d\x7d"

/-- A cargo that documents every target with its label, but cannot build one of the binaries. -/
def bareTool (c : Crate) : Toolbox where
  isInstalled _ := true
  run call files :=
    let t := Tool.targetOf call.args
    if t = .binary "broken" then (files, { fault? := some "exit status 101" })
    else
      match files.write (c.emittedPath t) (.ofText (bareGraph t.label)) with
      | .error e => (files, { fault? := some e.message })
      | .ok files => (files, {})

theorem node?_bareTool (c : Crate) (call : Call) (files : FileTree) {q : Place}
    (hq : q ≠ Place.ofPath (c.emittedPath (Tool.targetOf call.args))) :
    ((bareTool c).run call files).1.node? q = files.node? q := by
  unfold bareTool
  dsimp only
  split
  · rfl
  · split
    · rfl
    · next files' hwrite =>
        rcases (FileTree.write_eq_ok_iff (c.isClean_emittedPath _)).1 hwrite with ⟨-, -, rfl⟩
        exact FileTree.node?_set_of_ne hq

def binaries : Settings where
  extension := ".md"
  rustdoc :=
    { crateName := "app", graphName := "app", outputDir := "out"
      targets := [.library, .binary "broken", .binary "cli"] }

/-- An output directory with a page that is replaced and a file that is no page. -/
def binariesWorkspace : Workspace where
  files :=
    { entries :=
        [(["target"], .dir), (["target", "doc"], .dir), (["out"], .dir),
          (["out", "runtime.md"], .file (.ofText "old")),
          (["out", "notes.md"], .file (.ofText "kept"))] }
  tools := bareTool binaries.rustdoc.crate
  formats := .standard
  web _ := { status := 404, body := [] }
  scratch := "/tmp"

theorem apart_binaries :
    Apart binaries binariesWorkspace (Place.ofPath binaries.rustdoc.outputDir) := by
  constructor
  case cargo =>
    intro t ht files q hq
    have haway : ∀ t ∈ binaries.rustdoc.targets, ¬ Place.ofPath binaries.rustdoc.outputDir <+:
        Place.ofPath (binaries.rustdoc.crate.emittedPath
          (Tool.targetOf (Tool.emissionCall binaries.rustdoc.crate t).args)) := by
      decide
    have htools : binariesWorkspace.tools = bareTool binaries.rustdoc.crate := rfl
    rw [htools]
    refine node?_bareTool binaries.rustdoc.crate _ files fun hplace => ?_
    rw [hplace] at hq
    exact haway t ht hq
  case graphs =>
    decide
  case archive =>
    intro harchive
    cases harchive

/-- One binary is reported as failed, and the pages of the other targets are there. -/
theorem run_accounts_binaries :
    ((run binaries { cargo := true } {}).run binariesWorkspace).1.2 = none ∧
      Accounts binaries { cargo := true } {} binariesWorkspace
        ((run binaries { cargo := true } {}).run binariesWorkspace).1.1
        ((run binaries { cargo := true } {}).run binariesWorkspace).2.files := by
  have hdone : ((run binaries { cargo := true } {}).run binariesWorkspace).1.2 = none := by
    decide +kernel
  have hwrite : ∀ path e,
      ((run binaries { cargo := true } {}).run binariesWorkspace).1.2 ≠ some (.write path e) := by
    intro path e
    rw [hdone]
    exact fun heq => (nomatch heq)
  exact run_accounts binaries { cargo := true } {} binariesWorkspace rfl (fun _ => rfl)
    (fun _ => apart_binaries) hwrite

end RustdocRun
end ApiPages

import ApiPages.Proofs.Page.Files
import ApiPages.Proofs.Run.Keeping
import ApiPages.Run.Standard

/-!
# Where the pages of a run go

A page is named after the module path, and its name is joined to the directory of its graph and then
to the output directory.  Names come from the graph as they are, so a name may hold slashes and
steps to the parent.

* `RustdocRun.LeadsAway` says on the parts of a page's file name whether it leads out of the
  directory it is relative to;
* `RustdocRun.turns` are the graphs of a run with the files that each is rendered from;
* `RustdocRun.sameFileAt_documentAll` says that files to which no page goes are left alone;
* `RustdocRun.run_confined` puts this together: which pages lead out, and that no other page and no
  other file outside the output directory is touched.
-/

namespace ApiPages

open SlashPath

namespace ModulePages

/-! ## File names -/

theorem isRooted_rootFile (mode : Mode) (ext : String) :
    isRooted (rootFile mode ++ ext) = false := by
  cases mode <;> simp [isRooted, rootFile]

/-- The file name of a root's page is not cleaned, but has the elements of the cleaned name. -/
theorem file_frame_congr (opts : PageOptions) (mode : Mode) (m : Module) :
    isRooted (frame opts mode m).file = isRooted (join (fileParts opts mode m)) ∧
      elements (frame opts mode m).file = elements (join (fileParts opts mode m)) := by
  rw [file_frame]
  cases hroot : m.isRoot with
  | false =>
      exact ⟨rfl, rfl⟩
  | true =>
      have hparts : fileParts opts mode m =
          [rootFile mode ++ Page.normalExtension opts.extension] := by
        rw [fileParts, hroot, if_pos rfl]
      rw [if_pos rfl, hparts, elements_join, isRooted_join_singleton, pieces,
        List.flatMap_singleton]
      exact ⟨rfl, rfl⟩

/-- A file name that is joined to a directory is that of its parts joined to it. -/
theorem join_file_frame {opts : PageOptions} {mode : Mode} {m : Module}
    (h : isRooted (join (fileParts opts mode m)) = false) (dir : String) :
    isRooted (join [dir, (frame opts mode m).file]) =
      isRooted (join (dir :: fileParts opts mode m)) ∧
      elements (join [dir, (frame opts mode m).file]) =
        elements (join (dir :: fileParts opts mode m)) := by
  rw [file_frame]
  cases hroot : m.isRoot with
  | false =>
      exact elements_join_join h dir
  | true =>
      rw [if_pos rfl, fileParts, hroot, if_pos rfl]
      exact ⟨rfl, rfl⟩

/-- Only names make a file name rooted, so it is a cleaned one then. -/
theorem isClean_file_frame {opts : PageOptions} {mode : Mode} {m : Module}
    (h : isRooted (join (fileParts opts mode m)) = true) : IsClean (frame opts mode m).file := by
  rw [file_frame]
  cases hroot : m.isRoot with
  | false =>
      refine isClean_join_of_ne fun hempty => ?_
      rw [hempty] at h
      cases h
  | true =>
      rw [fileParts, hroot, if_pos rfl, isRooted_join_singleton, isRooted_rootFile] at h
      cases h

end ModulePages

namespace RustdocRun

open ModulePages

variable {formats : Formats} {s : Settings} {g : GraphInput} {graphs rest : List GraphInput}
  {files : FileTree} {w : Workspace} {written : Written} {place : Place}

/-- Whether parts lead out when they are joined and placed in a directory.  With a slash in front
they do so on their own, but are tamed by a directory; otherwise some step to the parent has no name
in front of it to give up. -/
def LeadsAway (subdir : String) (parts : List String) : Prop :=
  if isRooted (join parts) then subdir = "" ∨ LeadsOut subdir
  else isRooted subdir = true ∨ climbs 0 (pieces (subdir :: parts)) = true

theorem leadsOut_relocate (g : GraphInput) (opts : PageOptions) (mode : Mode) (m : Module)
    {p : Page} (hfile : p.file = (frame opts mode m).file) :
    LeadsOut (relocate g p).file ↔ LeadsAway g.subdir (fileParts opts mode m) := by
  have hplain := leadsOut_congr (file_frame_congr opts mode m).1 (file_frame_congr opts mode m).2
  by_cases hsubdir : g.subdir = ""
  · have hsame : (relocate g p).file = (frame opts mode m).file := by
      rw [relocate, if_pos (by simpa using hsubdir), hfile]
    rw [hsame, hplain, leadsOut_join_iff, LeadsAway, hsubdir]
    cases isRooted (join (fileParts opts mode m)) with
    | true =>
        simp
    | false =>
        have hempty : climbs 0 (pieces ("" :: fileParts opts mode m)) =
            climbs 0 (pieces (fileParts opts mode m)) := by
          rw [pieces_cons]
          exact climbs_dropped (.inl rfl) 0 _
        rw [hempty]
        simp [isRooted]
  · have hmoved : (relocate g p).file = join [g.subdir, (frame opts mode m).file] := by
      rw [relocate, if_neg (by simpa using hsubdir), hfile]
    rw [hmoved, LeadsAway]
    cases hrooted : isRooted (join (fileParts opts mode m)) with
    | true =>
        rw [if_pos rfl, leadsOut_join_rooted (isClean_file_frame hrooted)
          ((file_frame_congr opts mode m).1.trans hrooted) hsubdir]
        exact (or_iff_right hsubdir).symm
    | false =>
        rcases join_file_frame hrooted g.subdir with ⟨hroot, helements⟩
        rw [leadsOut_congr hroot helements, leadsOut_join_iff, isRooted_join_cons, if_neg hsubdir,
          if_neg Bool.false_ne_true]

/-! ## The pages of a run -/

/-- The graphs of a run, each with the files it is rendered from. -/
def turns (formats : Formats) (s : Settings) :
    FileTree → List GraphInput → List (GraphInput × FileTree)
  | _, [] => []
  | files, g :: rest =>
      (g, files) :: turns formats s (afterPages formats s files (rendering formats s files g)) rest

theorem renderings_eq_map_turns (formats : Formats) (s : Settings) (files : FileTree)
    (graphs : List GraphInput) :
    renderings formats s files graphs =
      (turns formats s files graphs).map fun turn => rendering formats s turn.2 turn.1 := by
  induction graphs generalizing files with
  | nil =>
      rfl
  | cons g rest ih =>
      rw [renderings, turns, List.map_cons, ih]

theorem exists_module_of_mem_pagesOf {t : Tree} {page : Page} (h : page ∈ pagesOf s g t) :
    ∃ m ∈ t.modules, page =
      relocate g { frame (optionsOf s g) t.mode m with body := page.body } := by
  rw [pagesOf, List.mem_map] at h
  rcases h with ⟨p, hp, rfl⟩
  rw [render, List.mem_map] at hp
  rcases hp with ⟨m, hm, rfl⟩
  refine ⟨m, hm, ?_⟩
  unfold relocate
  split <;> rfl

/-- Every page is that of a module of the tree of a graph. -/
theorem exists_module_of_mem_pagesIn {page : Page}
    (h : page ∈ pagesIn (renderings formats s files graphs)) :
    ∃ turn ∈ turns formats s files graphs, ∃ t, treeOf formats.packing turn.2 turn.1 = .ok t ∧
      ∃ m ∈ t.modules,
      page = relocate turn.1 { frame (optionsOf s turn.1) t.mode m with body := page.body } := by
  rw [renderings_eq_map_turns, pagesIn, List.flatMap_map] at h
  rcases List.mem_flatMap.1 h with ⟨turn, hturn, hpage⟩
  refine ⟨turn, hturn, ?_⟩
  unfold rendering at hpage
  cases htree : treeOf formats.packing turn.2 turn.1 with
  | error e =>
      rw [htree] at hpage
      cases hpage
  | ok t =>
      rw [htree] at hpage
      exact ⟨t, rfl, exists_module_of_mem_pagesOf hpage⟩

/-! ## Files that no page goes to -/

/-- Writing pages leaves the files at other places, also if it ends with a page that cannot be
written. -/
theorem sameFileAt_writeAll (label : String) (written : Written) {pages : List Page}
    (h : ∀ p ∈ pages, Place.ofPath (p.pathIn s.rustdoc.outputDir) ≠ place) (w : Workspace) :
    FileTree.SameFileAt place w.files ((writeAll s label written pages).run w).2.files := by
  induction pages generalizing written w with
  | nil =>
      exact .refl place w.files
  | cons p rest ih =>
      rcases writeAll_step s label written p rest w with ⟨e, log, -, hstep⟩ | ⟨t, log, hsave, hstep⟩
      · rw [hstep]
        exact .refl place w.files
      · rw [hstep]
        have hfirst := FileTree.sameFileAt_save (Page.isClean_pathIn_of_save hsave) hsave
          (h p (List.mem_cons_self ..))
        exact hfirst.trans (ih _ (fun p' hp' => h p' (List.mem_cons_of_mem _ hp')) _)

/-- Documenting graphs leaves the files to which no page goes, however it ends. -/
theorem sameFileAt_documentAll (graphs : List GraphInput) (written : Written) (r : Report Failure)
    (w : Workspace) (h : ∀ page ∈ pagesIn (renderings w.formats s w.files graphs),
      Place.ofPath (page.pathIn s.rustdoc.outputDir) ≠ place) :
    FileTree.SameFileAt place w.files ((documentAll s written graphs r).run w).2.files := by
  induction graphs generalizing written r w with
  | nil =>
      exact .refl place w.files
  | cons g rest ih =>
      cases hcancelled : w.isCancelled with
      | true =>
          rw [documentAll, Action.run_bind, Action.run_get]
          dsimp only
          rw [if_pos hcancelled]
          exact .refl place w.files
      | false =>
          rcases run_documentAll_cons hcancelled written g rest r with ⟨log, hstep⟩
          rw [hstep]
          rw [renderings] at h
          cases hrendering : rendering w.formats s w.files g with
          | error e =>
              rw [hrendering] at h
              rw [finish, Action.run_bind, Action.run_record]
              exact ih _ _ _ h
          | ok result =>
              rw [hrendering] at h
              have hpages := fun p (hp : p ∈ result.pages) => h p (List.mem_append_left _ hp)
              have hwritten := sameFileAt_writeAll g.label written hpages { w with log }
              have hcases := writeAll_cases s g.label written result.pages { w with log }
              rw [finish, Action.run_bind]
              generalize (writeAll s g.label written result.pages).run { w with log } = done
                at hwritten hcases ⊢
              rcases done with ⟨outcome, w₁⟩
              rcases hcases with ⟨path, e, rfl⟩ | ⟨⟨written', rfl⟩, hsetting, hsaved⟩
              · exact hwritten
              · dsimp only
                rw [Action.run_bind, Action.run_record]
                -- the other graphs are rendered from the files that these pages leave
                have hafter : afterPages w.formats s w.files (.ok result) = w₁.files := by
                  rw [afterPages, hsaved]
                  rfl
                have hformats : w.formats = w₁.formats := hsetting.formats.symm
                rw [hafter, hformats] at h
                exact hwritten.trans (ih _ _ _ fun p hp => h p (List.mem_append_right _ hp))

/-- A run leaves the files to which no page goes as they were when its graphs were gathered. -/
theorem sameFileAt_run (s : Settings) (caps : Capabilities) (q : RustdocRequest) (w : Workspace)
    (h : ∀ page ∈ pagesIn (results s caps q w),
      Place.ofPath (page.pathIn s.rustdoc.outputDir) ≠ place) :
    FileTree.SameFileAt place (gathered s caps q w).2 ((run s caps q).run w).2.files := by
  unfold run
  rw [Action.run_bind]
  have hformats := (keeps_gather s caps q { kind := "rustdoc" } w).formats
  rcases hgather : (gather s caps q { kind := "rustdoc" }).run w with ⟨⟨⟨graphs, r⟩, e?⟩, w₁⟩
  have hgathered : gathered s caps q w = (graphs, w₁.files) := by
    rw [gathered, hgather]
  rw [hgather] at hformats
  rw [results, hgathered, ← hformats] at h
  rw [hgathered]
  cases e? with
  | some e =>
      exact .refl place w₁.files
  | none =>
      exact sameFileAt_documentAll graphs [] r w₁ h

/-! ## Whole runs -/

/-- The pages that lead out of the output directory are those of modules whose names climb above it.
Every other page is written below it, and a file outside it is touched by no page but those. -/
theorem run_confined (s : Settings) (caps : Capabilities) (q : RustdocRequest) (w : Workspace) :
    (∀ page ∈ pagesIn (results s caps q w),
      ∃ turn ∈ turns w.formats s (gathered s caps q w).2 (gathered s caps q w).1,
        ∃ t, treeOf w.formats.packing turn.2 turn.1 = .ok t ∧ ∃ m ∈ t.modules,
          page = relocate turn.1 { frame (optionsOf s turn.1) t.mode m with body := page.body } ∧
          (LeadsOut page.file ↔
            LeadsAway turn.1.subdir (fileParts (optionsOf s turn.1) t.mode m))) ∧
    (∀ page ∈ pagesIn (results s caps q w), ¬ LeadsOut page.file →
      (Place.ofPath (page.pathIn s.rustdoc.outputDir)).IsBelow (Place.ofPath s.rustdoc.outputDir)) ∧
    (∀ place : Place, ¬ place.IsBelow (Place.ofPath s.rustdoc.outputDir) →
      (∀ page ∈ pagesIn (results s caps q w), LeadsOut page.file →
        Place.ofPath (page.pathIn s.rustdoc.outputDir) ≠ place) →
      FileTree.SameFileAt place (gathered s caps q w).2 ((run s caps q).run w).2.files) := by
  have hbelow : ∀ page : Page, ¬ LeadsOut page.file →
      (Place.ofPath (page.pathIn s.rustdoc.outputDir)).IsBelow
        (Place.ofPath s.rustdoc.outputDir) :=
    fun page hpage => Place.isBelow_join hpage s.rustdoc.outputDir
  refine ⟨?_, fun page _ => hbelow page, ?_⟩
  · intro page hpage
    rcases exists_module_of_mem_pagesIn hpage with ⟨turn, hturn, t, htree, m, hm, heq⟩
    refine ⟨turn, hturn, t, htree, m, hm, heq, ?_⟩
    rw [heq]
    exact leadsOut_relocate turn.1 (optionsOf s turn.1) t.mode m rfl
  · intro place hplace hout
    refine sameFileAt_run s caps q w fun page hpage heq => ?_
    by_cases hleads : LeadsOut page.file
    · exact hout page hpage hleads heq
    · exact hplace (heq ▸ hbelow page hleads)

/-! ### A module whose name climbs -/

/-- The graph of a crate with a module that has a function and the given name. -/
def nestedGraph (name : String) : String :=
  "\x7b\"root\":0,\"index\":\x7b" ++
    "\"0\":\x7b\"inner\":\x7b\"module\":\x7b\"items\":[1]\x7d\x7d\x7d," ++
    "\"1\":\x7b\"name\":\"" ++ name ++
    "\",\"inner\":\x7b\"module\":\x7b\"items\":[2]\x7d\x7d\x7d," ++
    "\"2\":\x7b\"name\":\"f\",\"inner\":\x7b\"function\":\x7b\x7d\x7d\x7d\x7d\x7d"

def engine : Settings where
  extension := ".mdx"
  rustdoc :=
    { crateName := "engine", graphName := "pai_engine", outputDir := "out/rust", targets := [] }

/-- A graph next to a file that stands outside the output directory. -/
def nestedWorkspace (name : String) : Workspace where
  files :=
    { entries :=
        [(["g.json"], .file (.ofText (nestedGraph name))), (["out"], .dir),
          (["out", "x.mdx"], .file (.ofText "kept"))] }
  tools := { run := fun _ files => (files, {}), isInstalled := fun _ => false }
  formats := .standard
  web _ := { status := 404, body := [] }
  scratch := "/tmp"

/-- The pages of a module with an ordinary name are written below the output directory. -/
theorem run_confined_nested :
    (∀ page ∈ pagesIn (results engine {} { graphFiles := ["g.json"] } (nestedWorkspace "net")),
      (Place.ofPath (page.pathIn engine.rustdoc.outputDir)).IsBelow
        (Place.ofPath engine.rustdoc.outputDir)) ∧
    FileTree.SameFileAt ["out", "x.mdx"]
      (gathered engine {} { graphFiles := ["g.json"] } (nestedWorkspace "net")).2
      ((run engine {} { graphFiles := ["g.json"] }).run (nestedWorkspace "net")).2.files := by
  rcases run_confined engine {} { graphFiles := ["g.json"] } (nestedWorkspace "net") with
    ⟨-, hbelow, hsame⟩
  have hfiles : (pagesIn (results engine {} { graphFiles := ["g.json"] }
      (nestedWorkspace "net"))).map Page.file = ["crate.mdx", "engine/net.mdx"] := by
    decide +kernel
  have hstays : ∀ page ∈ pagesIn (results engine {} { graphFiles := ["g.json"] }
      (nestedWorkspace "net")), ¬ LeadsOut page.file := by
    intro page hpage
    have hfile := List.mem_map_of_mem (f := Page.file) hpage
    rw [hfiles] at hfile
    have hnone : ∀ file ∈ ["crate.mdx", "engine/net.mdx"], ¬ LeadsOut file := by decide
    exact hnone _ hfile
  refine ⟨fun page hpage => hbelow page hpage (hstays page hpage), hsame _ ?_ ?_⟩
  · rintro ⟨names, -, hplace⟩
    have hplaces : ["out", "x.mdx"] = ["out", "rust"] ++ names := hplace
    simp at hplaces
  · exact fun page hpage hleads => absurd hleads (hstays page hpage)

/-- A module named after a place outside has its page written there. -/
theorem run_escapes :
    (∃ page ∈ pagesIn (results engine {} { graphFiles := ["g.json"] } (nestedWorkspace "../../x")),
      page.file = "../x.mdx" ∧ LeadsOut page.file ∧
      page.pathIn engine.rustdoc.outputDir = "out/x.mdx" ∧
      ¬ (Place.ofPath (page.pathIn engine.rustdoc.outputDir)).IsBelow
        (Place.ofPath engine.rustdoc.outputDir)) ∧
    (nestedWorkspace "../../x").files.read "out/x.mdx" = .ok (.ofText "kept") ∧
    ((run engine {} { graphFiles := ["g.json"] }).run (nestedWorkspace "../../x")).2.files.read
      "out/x.mdx" ≠ .ok (.ofText "kept") := by
  have hrun : (pagesIn (results engine {} { graphFiles := ["g.json"] }
        (nestedWorkspace "../../x"))).map Page.file = ["crate.mdx", "../x.mdx"] ∧
      ((run engine {} { graphFiles := ["g.json"] }).run (nestedWorkspace "../../x")).2.files.read
        "out/x.mdx" ≠ .ok (.ofText "kept") := by
    decide +kernel
  rcases hrun with ⟨hfiles, hreplaced⟩
  have hpage : "../x.mdx" ∈ (pagesIn (results engine {} { graphFiles := ["g.json"] }
      (nestedWorkspace "../../x"))).map Page.file := by
    rw [hfiles]
    decide
  rcases List.mem_map.1 hpage with ⟨page, hmem, hfile⟩
  have hpath : page.pathIn engine.rustdoc.outputDir = "out/x.mdx" := by
    rw [Page.pathIn, hfile]
    decide
  refine ⟨⟨page, hmem, hfile, ?_, hpath, ?_⟩, by decide +kernel, hreplaced⟩
  · rw [hfile]
    decide
  · -- a place below the output directory would begin with its two names
    rw [hpath]
    rintro ⟨names, -, hbelow⟩
    have hplaces : ["out", "x.mdx"] = ["out", "rust"] ++ names := hbelow
    simp at hplaces

end RustdocRun
end ApiPages

import ApiPages.Page.Module
import ApiPages.Proofs.Files.Confinement
import ApiPages.Proofs.Graph.Layers

/-!
# File names of module pages

The page of a module is named after the module's path, with the crate's name in place of the root's;
the page of the root has one of two fixed names.

* `ModulePages.fileParts` are the parts of a page's file name, and `ModulePages.file_frame` the name
  that is joined from them;
* `SlashPath.join_names` and `SlashPath.joined_injective` say that names are spelled out by joining
  them and can be read back;
* `ModulePages.file_of_tree` names the pages of a tree, and `ModulePages.render_distinct` says that
  no two of them have one name.
-/

namespace ApiPages

open SlashPath

namespace ModulePages

/-! ## Parts -/

/-- The name of the root's page. -/
def rootFile : Mode → String
  | .executable => "runtime"
  | .library => "crate"

/-- The parts of the file name of a module's page. -/
def fileParts (opts : PageOptions) (mode : Mode) (m : Module) : List String :=
  if m.isRoot then [rootFile mode ++ Page.normalExtension opts.extension]
  else (displayPath opts m).dropLast ++ [m.name ++ Page.normalExtension opts.extension]

theorem file_frame (opts : PageOptions) (mode : Mode) (m : Module) : (frame opts mode m).file =
    if m.isRoot then rootFile mode ++ Page.normalExtension opts.extension
    else join (fileParts opts mode m) := by
  unfold frame fileParts rootFile
  cases m.isRoot <;> cases mode <;> rfl

/-- With a crate name, the parts of a module's page are that name, the modules between the root and
the module, and the module's own name with the extension. -/
theorem fileParts_of_path {opts : PageOptions} {mode : Mode} {m : Module} {first : String}
    {between : List String} (hcrate : opts.crateName ≠ "") (hroot : m.isRoot = false)
    (hpath : m.path = first :: between ++ [m.name]) :
    fileParts opts mode m =
      opts.crateName :: between ++ [m.name ++ Page.normalExtension opts.extension] := by
  have hname : opts.crateName.isEmpty = false := by simpa using hcrate
  rw [fileParts, hroot, if_neg Bool.false_ne_true, displayPath, hpath, List.cons_append]
  dsimp only
  rw [hname, if_neg Bool.false_ne_true, ← List.cons_append, List.dropLast_concat]

theorem normalExtension_eq {ext : String} (h : '/' ∉ ext.toList) :
    ∃ letters, (Page.normalExtension ext).toList = '.' :: letters ∧ '/' ∉ letters := by
  rw [Page.normalExtension]
  split
  · exact ⟨_, rfl, by decide⟩
  · split
    · next hpoint =>
        rcases List.head?_eq_some_iff.1 (beq_iff_eq.1 hpoint) with ⟨letters, hletters⟩
        rw [hletters] at h ⊢
        exact ⟨letters, rfl, fun hmem => h (List.mem_cons_of_mem _ hmem)⟩
    · refine ⟨ext.toList, ?_, h⟩
      rw [String.toList_append]
      rfl

/-- A name with an extension behind it is a name. -/
theorem isName_extended {name ext : String} (hname : IsName name.toList) (hext : '/' ∉ ext.toList) :
    IsName (name ++ Page.normalExtension ext).toList := by
  rcases normalExtension_eq hext with ⟨letters, hletters, hslash⟩
  rcases List.exists_cons_of_ne_nil hname.1 with ⟨c, rest, hchars⟩
  rw [String.toList_append, hletters, hchars]
  refine ⟨by simp, by simp, fun hup => ?_, ?_⟩
  · -- two points are left only if the name is one of them
    have hdot : c = '.' ∧ rest = [] := by
      cases rest <;> simp_all
    rw [hdot.1, hdot.2] at hchars
    exact hname.2.1 hchars
  · have hfree := hname.2.2.2
    rw [hchars] at hfree
    simpa [hslash] using hfree

theorem isName_rootFile (mode : Mode) {ext : String} (hext : '/' ∉ ext.toList) :
    IsName (rootFile mode ++ Page.normalExtension ext).toList := by
  refine isName_extended ?_ hext
  cases mode <;> simp [rootFile, IsName]

end ModulePages

/-! ## Names spelled out -/

namespace SlashPath

theorem ne_empty_of_isName {name : String} (h : IsName name.toList) : name ≠ "" := by
  rintro rfl
  exact h.1 rfl

theorem elements_name {name : String} (h : IsName name.toList) :
    isRooted name = false ∧ elements name = [name.toList] := by
  have hrooted : isRooted name = false := by
    rw [isRooted, beq_eq_false_iff_ne]
    exact fun hhead => h.2.2.2 (List.mem_of_mem_head? hhead)
  refine ⟨hrooted, ?_⟩
  rw [elements, splitOn_of_not_mem h.2.2.2, List.foldl_cons, List.foldl_nil, pushElement_name h]
  rfl

/-- There is nothing to clean where names are joined. -/
theorem join_names {name : String} {names : List String}
    (h : ∀ n ∈ name :: names, IsName n.toList) :
    join (name :: names) = Text.joined "/" (name :: names) := by
  have hname := h name (List.mem_cons_self ..)
  have hkept : (name :: names).filter (fun n => !n.isEmpty) = name :: names :=
    List.filter_eq_self.2 fun n hn => by simpa using ne_empty_of_isName (h n hn)
  rcases elements_joined (ne_empty_of_isName hname) fun n hn => h n (List.mem_cons_of_mem _ hn)
    with ⟨hrooted, helements⟩
  rw [(elements_name hname).1] at hrooted
  rw [(elements_name hname).2] at helements
  rw [join, hkept]
  dsimp only
  rw [clean_eq_spell, hrooted, helements, if_neg (by simp)]
  apply String.toList_injective
  rw [String.toList_ofList, toList_joined]
  rfl

/-- Names can be read back after they have been joined. -/
theorem joined_injective {names names' : List String} (hne : names ≠ []) (hne' : names' ≠ [])
    (h : ∀ n ∈ names, '/' ∉ n.toList) (h' : ∀ n ∈ names', '/' ∉ n.toList)
    (heq : Text.joined "/" names = Text.joined "/" names') : names = names' := by
  have hsplit : ∀ ns : List String, ns ≠ [] → (∀ n ∈ ns, '/' ∉ n.toList) →
      (Text.joined "/" ns).toList.splitOn '/' = ns.map String.toList := by
    intro ns hns hfree
    rw [toList_joined, List.splitOn_intercalate '/' ?_ (by simpa using hns)]
    simpa using hfree
  have hchars : names.map String.toList = names'.map String.toList := by
    rw [← hsplit names hne h, ← hsplit names' hne' h', heq]
  exact List.map_injective_iff.2 (fun _ _ heq => String.toList_injective heq) hchars

end SlashPath

/-! ## Pages of a tree -/

namespace ModulePages

variable {idx : Index} {mode : Mode} {root : ItemId} {t : Tree} {opts : PageOptions} {m : Module}

/-- The page of a module of a tree is named by its parts, which are names. -/
theorem file_of_tree (h : Tree.ofIndex idx mode root = .ok t)
    (hnames : ∀ m ∈ t.modules, IsName m.name.toList) (hcrate : IsName opts.crateName.toList)
    (hext : '/' ∉ opts.extension.toList) (hm : m ∈ t.modules) (mode' : Mode) :
    (frame opts mode' m).file = Text.joined "/" (fileParts opts mode' m) ∧
      fileParts opts mode' m ≠ [] ∧ ∀ n ∈ fileParts opts mode' m, IsName n.toList := by
  have hpath := Tree.path_cases h hm
  rw [file_frame]
  cases hroot : m.isRoot with
  | true =>
      have hparts : fileParts opts mode' m =
          [rootFile mode' ++ Page.normalExtension opts.extension] := by
        rw [fileParts, hroot, if_pos rfl]
      rw [if_pos rfl, hparts]
      refine ⟨rfl, List.cons_ne_nil _ _, fun n hn => ?_⟩
      rw [List.mem_singleton.1 hn]
      exact isName_rootFile mode' hext
  | false =>
      rw [hroot, if_neg Bool.false_ne_true] at hpath
      rcases hpath with ⟨between, hpath, hbetween⟩
      rw [if_neg Bool.false_ne_true, fileParts_of_path (ne_empty_of_isName hcrate) hroot hpath]
      have hall : ∀ n ∈ opts.crateName :: between ++
        [m.name ++ Page.normalExtension opts.extension],
          IsName n.toList := by
        intro n hn
        rcases List.mem_append.1 hn with hn | hn
        · rcases List.mem_cons.1 hn with rfl | hn
          · exact hcrate
          · rcases hbetween n hn with ⟨m', hm', rfl⟩
            exact hnames m' hm'
        · rw [List.mem_singleton.1 hn]
          exact isName_extended (hnames m hm) hext
      exact ⟨join_names hall, List.cons_ne_nil _ _, hall⟩

/-- The page of the root has one part, those of all other modules have two or more. -/
theorem file_ne_rootFile (h : Tree.ofIndex idx mode root = .ok t)
    (hnames : ∀ m ∈ t.modules, IsName m.name.toList) (hcrate : IsName opts.crateName.toList)
    (hext : '/' ∉ opts.extension.toList) (hm : m ∈ t.modules) (hroot : m.isRoot = false)
    (mode₁ mode₂ : Mode) :
    (frame opts mode₁ m).file ≠ rootFile mode₂ ++ Page.normalExtension opts.extension := by
  intro heq
  rcases file_of_tree h hnames hcrate hext hm mode₁ with ⟨hfile, hparts, hfree⟩
  have hone : rootFile mode₂ ++ Page.normalExtension opts.extension =
      Text.joined "/" [rootFile mode₂ ++ Page.normalExtension opts.extension] :=
    rfl
  have hsame := joined_injective hparts (List.cons_ne_nil _ []) (fun n hn => (hfree n hn).2.2.2)
    (fun n hn => List.mem_singleton.1 hn ▸ (isName_rootFile mode₂ hext).2.2.2)
    (hfile.symm.trans (heq.trans hone))
  have hpath := Tree.path_cases h hm
  rw [hroot, if_neg Bool.false_ne_true] at hpath
  rcases hpath with ⟨between, hpath, -⟩
  have hlength := congrArg List.length hsame
  rw [fileParts_of_path (ne_empty_of_isName hcrate) hroot hpath] at hlength
  simp at hlength

/-- Modules with different paths have pages with different names. -/
theorem path_eq_of_file_eq (h : Tree.ofIndex idx mode root = .ok t)
    (hnames : ∀ m ∈ t.modules, IsName m.name.toList) (hcrate : IsName opts.crateName.toList)
    (hext : '/' ∉ opts.extension.toList) {m m' : Module} (hm : m ∈ t.modules) (hm' : m' ∈ t.modules)
    (heq : (frame opts mode m).file = (frame opts mode m').file) : m.path = m'.path := by
  have hpath := Tree.path_cases h hm
  have hpath' := Tree.path_cases h hm'
  cases hroot : m.isRoot <;> cases hroot' : m'.isRoot <;>
    simp only [hroot, hroot', if_true, if_false, Bool.false_eq_true] at hpath hpath'
  case true.true =>
    exact hpath.trans hpath'.symm
  case true.false =>
    refine absurd heq.symm ?_
    rw [file_frame opts mode m, hroot, if_pos rfl]
    exact file_ne_rootFile h hnames hcrate hext hm' hroot' mode mode
  case false.true =>
    refine absurd heq ?_
    rw [file_frame opts mode m', hroot', if_pos rfl]
    exact file_ne_rootFile h hnames hcrate hext hm hroot mode mode
  case false.false =>
    rcases hpath with ⟨between, hpath, -⟩
    rcases hpath' with ⟨between', hpath', -⟩
    rcases file_of_tree h hnames hcrate hext hm mode with ⟨hfile, hparts, hfree⟩
    rcases file_of_tree h hnames hcrate hext hm' mode with ⟨hfile', hparts', hfree'⟩
    have hsame := joined_injective hparts hparts' (fun n hn => (hfree n hn).2.2.2)
      (fun n hn => (hfree' n hn).2.2.2) (hfile.symm.trans (heq.trans hfile'))
    have hne := ne_empty_of_isName hcrate
    rw [fileParts_of_path hne hroot hpath, fileParts_of_path hne hroot' hpath'] at hsame
    rcases List.append_inj' hsame rfl with ⟨hbetween, hlast⟩
    have hname : m.name = m'.name := (String.append_left_inj _).1 (List.cons.inj hlast).1
    -- what is in front of the parts is the root's name, and that is the same in both paths
    rw [hpath, hpath', (List.cons.inj hbetween).2, hname]

/-- If the modules of a tree have names of path elements and no two of them one path, they have one
page each, in order: the root's is named for the way the tree is presented, the others follow the
path with the crate's name in front.  No two pages have one name, and none but the root's has the
name of a root's. -/
theorem render_distinct (h : Tree.ofIndex idx mode root = .ok t)
    (hnames : ∀ m ∈ t.modules, IsName m.name.toList) (hpaths : (t.modules.map Module.path).Nodup)
    (hcrate : IsName opts.crateName.toList) (hext : '/' ∉ opts.extension.toList)
    (survey : Markdown.Surveyor) :
    List.Forall₂ (fun m p =>
        if m.isRoot then p.file = rootFile mode ++ Page.normalExtension opts.extension
        else
          p.file = Text.joined "/" (opts.crateName :: m.path.tail.dropLast ++
            [m.name ++ Page.normalExtension opts.extension]) ∧
          ∀ mode', p.file ≠ rootFile mode' ++ Page.normalExtension opts.extension)
      t.modules (render survey opts t) ∧
    ((render survey opts t).map Page.file).Nodup := by
  have hmode : t.mode = mode := (Tree.eq_of_ofIndex h).2.1
  have hfiles : (render survey opts t).map Page.file =
      t.modules.map fun m => (frame opts mode m).file := by
    rw [render, List.map_map, hmode]
    rfl
  refine ⟨?_, ?_⟩
  · rw [render, List.forall₂_map_right_iff, List.forall₂_same, hmode]
    intro m hm
    have hpath := Tree.path_cases h hm
    rcases file_of_tree h hnames hcrate hext hm mode with ⟨hfile, -, -⟩
    cases hroot : m.isRoot with
    | true =>
        rw [if_pos rfl, file_frame, hroot, if_pos rfl]
    | false =>
        rw [hroot, if_neg Bool.false_ne_true] at hpath
        rcases hpath with ⟨between, hpath, -⟩
        rw [if_neg Bool.false_ne_true]
        refine ⟨?_, file_ne_rootFile h hnames hcrate hext hm hroot mode⟩
        have hbetween : m.path.tail.dropLast = between := by
          rw [hpath, List.cons_append, List.tail_cons, List.dropLast_concat]
        rw [hfile, fileParts_of_path (ne_empty_of_isName hcrate) hroot hpath, hbetween]
  · rw [hfiles]
    refine hpaths.of_map.map_on fun m hm m' hm' heq => ?_
    exact List.inj_on_of_nodup_map hpaths hm hm'
      (path_eq_of_file_eq h hnames hcrate hext hm hm' heq)

theorem render_distinct_ring : ∃ t, Tree.ofIndex Tree.ringIndex .executable "" = .ok t ∧
    (t.modules.map fun m => (frame { crateName := "kc", extension := "md" } .executable m).file) =
      ["runtime.md", "kc/net.md", "kc/io.md", "kc/net/tcp.md", "kc/io/buf.md"] ∧
    ((render (fun _ => {}) { crateName := "kc", extension := "md" } t).map Page.file).Nodup := by
  have hroot : Tree.ringIndex.kind? (Tree.ringIndex.rootFor "") = some .module := by decide
  have htree := Tree.ofIndex_of_module_root .executable hroot
  refine ⟨_, htree, by decide, ?_⟩
  refine (render_distinct htree ?_ ?_ ?_ ?_ _).2
  · have hnames : (Walk.ofRoot Tree.ringIndex (Tree.ringIndex.rootFor "")).modules.map Module.name =
        ["app", "net", "io", "tcp", "buf"] := by
      decide
    intro m hm
    have hmem := List.mem_map_of_mem (f := Module.name) hm
    rw [hnames] at hmem
    simp only [List.mem_cons, List.not_mem_nil, or_false] at hmem
    rcases hmem with hname | hname | hname | hname | hname <;> rw [hname] <;> simp [IsName]
  · decide
  · simp [IsName]
  · simp

end ModulePages
end ApiPages

import ApiPages.Proofs.Files.Patterns
import ApiPages.Proofs.Run.Turns
import ApiPages.Run.Standard

/-!
# Which files a run finds

A run finds definition files by a pattern that is joined to its directory, so the text of the
directory is read as a pattern as well.

* `ProtoRun.inputs?_eq` gives the files that are found in a directory whose text has no special
  characters, `ProtoRun.look_inputs` says that whatever is found is there;
* `ProtoRun.discovers_all` says that each definition file of such a directory is reported once, in
  order;
* `ProtoRun.bracketed_dir_missed` shows a directory with special characters whose files are not
  found.
-/

namespace ApiPages

open SlashPath

namespace ProtoRun

/-- The pieces of the pattern for definition files. -/
def ending : List Glob.Piece :=
  .run :: ".proto".toList.map .char

theorem pattern?_ending : Glob.pattern? "*.proto" = some ending := by
  decide

theorem fits_ending {name : String} (h : IsName name.toList) :
    Glob.fits ending name.toList = Text.endsWith name ".proto" := by
  rw [Bool.eq_iff_iff, ending, Glob.fits_run_iff h.2.2.2, Text.endsWith, List.isSuffixOf_iff_suffix]

/-- A name that ends as definition files do is a name. -/
theorem isName_of_endsWith {name : String} (h : Text.endsWith name ".proto" = true)
    (hslash : '/' ∉ name.toList) : IsName name.toList := by
  rcases Text.endsWith_iff.1 h with ⟨front, rfl⟩
  have hlong : 6 ≤ (front ++ ".proto").toList.length := by
    rw [String.toList_append, List.length_append]
    exact Nat.le_add_left _ _
  refine ⟨?_, ?_, ?_, hslash⟩ <;>
  · intro heq
    rw [heq] at hlong
    exact absurd hlong (by decide)

theorem isName_pattern : IsName "*.proto".toList :=
  isName_of_endsWith rfl (by decide)

/-- The names of the definition files in a directory, in order. -/
def namesIn (t : FileTree) (dir : String) : List String :=
  ((t.children (Place.ofPath dir)).map Prod.fst).filter fun name => Text.endsWith name ".proto"

variable {t : FileTree} {dir name : String} {files : List String}

theorem pairwise_namesIn (h : t.Proper) (dir : String) : (namesIn t dir).Pairwise (· < ·) :=
  ((List.pairwise_map.2 (h.pairwise_children (Place.ofPath dir))).filter _)

/-- The entries of a directory that end as definition files do are those a run looks for. -/
theorem mem_namesIn_iff (h : t.Proper) (hdir : t.isDir dir = true) : name ∈ namesIn t dir ↔
    '/' ∉ name.toList ∧ Text.endsWith name ".proto" = true ∧
      t.exists? (join [dir, name]) = true := by
  rcases FileTree.opens_of_isDir hdir with ⟨hopens, hnode⟩
  -- a name in the directory is there as a path if the directory lists it
  have hthere : IsName name.toList → (t.exists? (join [dir, name]) = true ↔
      ∃ n, (name, n) ∈ t.children (Place.ofPath dir)) := by
    intro hname
    have hne : name ≠ "" := by
      rintro rfl
      exact hname.1 rfl
    have hclean : IsClean (join [dir, name]) :=
      isClean_join (List.mem_cons_of_mem _ (List.mem_singleton_self _)) hne
    have hplace : Place.ofPath (join [dir, name]) = Place.ofPath dir ++ [name] :=
      Place.ofPath_join dir (by simpa using hname)
    rw [FileTree.exists?_iff hclean, hplace, ← FileTree.exists_node?_iff hname]
    exact exists_congr fun n => and_iff_right (hopens.concat hnode name)
  rw [namesIn, List.mem_filter]
  constructor
  · rintro ⟨hmem, hend⟩
    rcases List.mem_map.1 hmem with ⟨⟨name', n⟩, hlisted, rfl⟩
    have hname := h.isName hlisted
    exact ⟨hname.2.2.2, hend, (hthere hname).2 ⟨n, hlisted⟩⟩
  · rintro ⟨hslash, hend, hexists⟩
    rcases (hthere (isName_of_endsWith hend hslash)).1 hexists with ⟨n, hlisted⟩
    exact ⟨List.mem_map.2 ⟨_, hlisted, rfl⟩, hend⟩

/-- In a directory whose text has no special characters, the definition files are found. -/
theorem inputs?_eq (h : t.Proper) (hdir : t.isDir dir = true)
    (hplain : Glob.hasMeta (clean dir) = false) :
    inputs? t dir = some ((namesIn t dir).map fun name => join [dir, name]) := by
  rcases FileTree.opens_of_isDir hdir with ⟨hopens, hnode⟩
  have hne : dir ≠ "" := by
    rintro rfl
    cases hdir
  -- what is listed is the directory at the cleaned path, which has the place of the path as it is
  -- given
  have hlist : t.list? (clean dir) = some (t.children (Place.ofPath dir)) := by
    rw [← Place.ofPath_clean] at hopens hnode ⊢
    exact FileTree.list?_eq (isClean_clean dir) hopens hnode
  rw [inputs?, Glob.paths?_join hne hplain isName_pattern rfl pattern?_ending, Glob.inDir, hlist,
    Option.getD_some, namesIn, List.filter_map, List.map_map, ← List.filterMap_eq_map,
    List.filterMap_filter]
  refine congrArg some (List.filterMap_congr fun e he => ?_)
  have hname : IsName e.1.toList := h.isName he
  have hjoin : join [clean dir, e.1] = join [dir, e.1] := by
    have hne' : e.1 ≠ "" := fun heq => hname.1 (by rw [heq]; rfl)
    have hmem : ∀ d, e.1 ∈ [d, e.1] := fun d => List.mem_cons_of_mem _ (List.mem_singleton_self _)
    refine Place.eq_of_ofPath_eq (isClean_join (hmem _) hne') (isClean_join (hmem _) hne') ?_
    rw [Place.ofPath_join _ (by simpa using hname), Place.ofPath_join _ (by simpa using hname),
      Place.ofPath_clean]
  rw [fits_ending hname, hjoin]
  rfl

/-- The files that are found in a directory whose text has no special characters are definition
files with names of their own. -/
theorem pairwise_inputs (h : t.Proper) (hdir : t.isDir dir = true)
    (hplain : Glob.hasMeta (clean dir) = false) (hinputs : inputs? t dir = some files) :
    files.Pairwise fun file file' => Text.endsWith (base file) ".proto" = true ∧
      Text.endsWith (base file') ".proto" = true ∧ base file ≠ base file' := by
  have hne : dir ≠ "" := by
    rintro rfl
    cases hdir
  have hbase : ∀ name ∈ namesIn t dir, base (join [dir, name]) = name ∧
      Text.endsWith name ".proto" = true := by
    intro name hmem
    rcases (mem_namesIn_iff h hdir).1 hmem with ⟨hslash, hend, -⟩
    exact ⟨Glob.base_join hne (isName_of_endsWith hend hslash), hend⟩
  rw [inputs?_eq h hdir hplain] at hinputs
  cases hinputs
  refine List.pairwise_map.2 ((pairwise_namesIn h dir).imp_of_mem fun hmem hmem' hlt => ?_)
  rw [(hbase _ hmem).1, (hbase _ hmem').1]
  refine ⟨(hbase _ hmem).2, (hbase _ hmem').2, ?_⟩
  rintro rfl
  exact String.lt_irrefl _ hlt

/-- Whatever the text of the directory, the files that are found are there. -/
theorem look_inputs (h : t.Proper) (hdir : t.isDir dir = true)
    (hinputs : inputs? t dir = some files) {file : String} (hfile : file ∈ files) :
    IsClean file ∧ ∃ n, t.look file = .ok n := by
  have hne : dir ≠ "" := by
    rintro rfl
    cases hdir
  have hmeta : Glob.hasMeta (join [dir, "*.proto"]) = true := by
    rw [Glob.hasMeta, Glob.toList_join hne isName_pattern, List.any_append, Bool.or_eq_true]
    exact .inr rfl
  rcases Glob.exists_list?_of_mem_paths? hmeta hinputs hfile with
    ⟨d, entries, name, n, hlist, hmem, rfl⟩
  exact h.look_of_list? hlist hmem

variable {s : Settings} {caps : Capabilities} {w : Workspace}

/-- In a directory whose text has no special characters, a run that is not cancelled and writes its
pages reports each file whose name ends in `.proto`, once, in the order of the names, and nothing
else. -/
theorem discovers_all (s : Settings) (caps : Capabilities) (w : Workspace) (hfiles : w.files.Proper)
    (hdir : w.files.isDir s.proto.dir = true) (hplain : Glob.hasMeta (clean s.proto.dir) = false)
    (hgoing : w.isCancelled = false)
    (hwrites : ∀ path e, ((run s caps).run w).1.2 ≠ some (.write path e)) :
    ((run s caps).run w).1.2 = none ∧
      ∃ names : List String, names.Pairwise (· < ·) ∧
        (∀ name, name ∈ names ↔ '/' ∉ name.toList ∧ Text.endsWith name ".proto" = true ∧
          w.files.exists? (join [s.proto.dir, name]) = true) ∧
        ((run s caps).run w).1.1.outcomes.map Outcome.input =
          names.map fun name => join [s.proto.dir, name] := by
  have hinputs := inputs?_eq hfiles hdir hplain
  have hresult := (run_dir s caps hdir hinputs).1
  rw [hresult] at hwrites ⊢
  have hdone := documentAll_completes hgoing hwrites
  rcases outcomes_documentAll hdone with ⟨outcomes, hall, hreported⟩
  refine ⟨hdone, namesIn w.files s.proto.dir, pairwise_namesIn hfiles _,
    fun name => mem_namesIn_iff hfiles hdir, ?_⟩
  rw [hall, ← hreported]
  rfl

/-! ### Two directories -/

/-- A run without programs over a directory of the given name. -/
def plainRun (dir : String) : Settings where
  extension := ".md"
  proto := { dir, outputDir := "out" }

/-- A directory of the given name with two definition files and a file that is none. -/
def greeterWorkspace (dir : String) : Workspace where
  files :=
    { entries :=
        [([dir], .dir), ([dir, "greeter.proto"], .file (.ofText "message Hello \x7b\n\x7d\n")),
          ([dir, "notes.txt"], .file (.ofText "")),
          ([dir, "zoo.proto"], .file (.ofText "message Zoo \x7b\n\x7d\n"))] }
  tools := { run := fun _ files => (files, {}), isInstalled := fun _ => false }
  formats := .standard
  web _ := { status := 404, body := [] }
  scratch := "/tmp"

theorem namesIn_greeter : namesIn (greeterWorkspace "proto").files "proto" =
    ["greeter.proto", "zoo.proto"] := by
  rw [namesIn, FileTree.children, FileTree.below_eq_of_sorted rfl (by decide)]
  decide

theorem discovers_all_greeter :
    ((run (plainRun "proto") {}).run (greeterWorkspace "proto")).1.2 = none ∧
      ∃ names : List String, names.Pairwise (· < ·) ∧
        (∀ name, name ∈ names ↔ '/' ∉ name.toList ∧ Text.endsWith name ".proto" = true ∧
          (greeterWorkspace "proto").files.exists? (join ["proto", name]) = true) ∧
        ((run (plainRun "proto") {}).run (greeterWorkspace "proto")).1.1.outcomes.map
          Outcome.input =
          names.map fun name => join ["proto", name] := by
  have hproper : (greeterWorkspace "proto").files.Proper := by decide
  have hdir : (greeterWorkspace "proto").files.isDir "proto" = true := by decide
  have hinputs := inputs?_eq hproper hdir (by decide)
  rw [namesIn_greeter] at hinputs
  have hdone : ((run (plainRun "proto") {}).run (greeterWorkspace "proto")).1.2 = none := by
    rw [(run_dir (plainRun "proto") {} hdir hinputs).1]
    decide +kernel
  refine discovers_all (plainRun "proto") {} (greeterWorkspace "proto") hproper hdir (by decide) rfl
    fun path e => ?_
  rw [hdone]
  exact fun heq => (nomatch heq)

/-- A directory that is there and holds a definition file, but whose text is a pattern that does not
stand for itself: the run ends without a failure and without a report. -/
theorem bracketed_dir_missed :
    (greeterWorkspace "pro[t]o").files.isDir (plainRun "pro[t]o").proto.dir = true ∧
      (greeterWorkspace "pro[t]o").files.exists? (join ["pro[t]o", "greeter.proto"]) = true ∧
      (greeterWorkspace "pro[t]o").isCancelled = false ∧
      ((run (plainRun "pro[t]o") {}).run (greeterWorkspace "pro[t]o")).1 =
        ({ kind := "proto" }, none) := by
  have hdir : (greeterWorkspace "pro[t]o").files.isDir "pro[t]o" = true := by decide
  -- the pattern is looked for in the working directory, which holds nothing but the directory
  have hlist : (greeterWorkspace "pro[t]o").files.list? "." = some [("pro[t]o", .dir)] := by
    have hbelow : (greeterWorkspace "pro[t]o").files.below [] =
        (greeterWorkspace "pro[t]o").files.entries :=
      FileTree.below_eq_of_sorted rfl (by decide)
    have hclean : IsClean "." := show clean "." = "." by decide
    have hplace : Place.ofPath "." = [] := by decide
    have hopens := FileTree.opens_ofKept_nil (greeterWorkspace "pro[t]o").files false
    rw [FileTree.list?_eq hclean (by rw [hplace]; exact hopens) (by rw [hplace]; rfl), hplace,
      FileTree.children, hbelow]
    rfl
  have hdirs : ∀ fuel, Glob.pathsWithin (greeterWorkspace "pro[t]o").files (fuel + 1) "pro[t]o" =
      some [] := by
    intro fuel
    have hpart : Glob.dirPart "pro[t]o" = "." := by decide
    have hlast : Glob.pattern? (String.ofList (lastElement "pro[t]o".toList)) =
        some [.char 'p', .char 'r', .char 'o', .oneOf false [('t', 't')], .char 'o'] := by
      decide
    rw [Glob.pathsWithin_succ fuel (by decide) (by decide) hlast, hpart, if_neg (by decide),
      Option.map_some, List.flatMap_singleton, Glob.inDir, hlist]
    -- the class stands for the character in it and not for its brackets, so nothing fits
    decide
  have hinputs : inputs? (greeterWorkspace "pro[t]o").files "pro[t]o" = some [] := by
    have hjoin : join ["pro[t]o", "*.proto"] = "pro[t]o/*.proto" := by decide
    have hpart : Glob.dirPart "pro[t]o/*.proto" = "pro[t]o" := by decide
    have hlast : Glob.pattern? (String.ofList (lastElement "pro[t]o/*.proto".toList)) =
        some ending := by
      decide
    have hlength : "pro[t]o/*.proto".length = 14 + 1 := by decide
    rw [inputs?, hjoin, Glob.paths?, Glob.pathsWithin_succ _ (by decide) (by decide) hlast,
      hpart, if_pos (by decide), hlength, hdirs]
    rfl
  refine ⟨hdir, by decide, rfl, ?_⟩
  rw [(run_dir (plainRun "pro[t]o") {} hdir hinputs).1]
  rfl

end ProtoRun
end ApiPages

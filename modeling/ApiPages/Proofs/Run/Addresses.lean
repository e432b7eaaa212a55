import ApiPages.Archive.Frame
import ApiPages.Proofs.Files.Confinement
import ApiPages.Proofs.Page.Links
import ApiPages.Proofs.Page.Names
import ApiPages.Proofs.Run.Confinement

/-!
# Where the pages of a published crate are served

The pages of a graph with a directory of its own are moved into it, and links to them are made as if
they were served from one.  The first keeps the case of the directory's name and a page is served in
lower case, so the two agree only if the name has no capital; and the address under which all pages
are served is cleaned like a path on the way.

* `SlashPath.join_pair_eq` writes a joined path out;
* `SlashPath.cutExt_append_slash` and `ModulePages.toList_pageUrl_moved` say where a moved page is
  served;
* `ModulePages.pageUrl_eq_moved_iff` says when a link to it agrees with that;
* `RustdocRun.linkTable_agrees` puts this together for the links of a graph.
-/

namespace ApiPages

/-! ## Texts -/

namespace Text

theorem lower_append (s t : String) : lower (s ++ t) = lower s ++ lower t := by
  rw [lower, lower, lower, String.toList_append, List.map_append, String.ofList_append]

theorem toList_lower (s : String) : (lower s).toList = s.toList.map lowerChar :=
  String.toList_ofList

end Text

namespace SlashPath

/-! ## Joined paths, written out -/

theorem spell_append (rooted : Bool) (es : List (List Char)) {names : List (List Char)}
    (h : names ≠ []) : spell rooted (es ++ names) = front rooted es ++ spell false names := by
  unfold front
  by_cases hes : es = []
  · rw [if_pos hes, hes]
    cases rooted <;> rfl
  · rw [if_neg hes]
    cases rooted <;> simp [spell, intercalate_append hes h]

/-- A path that names something below the directory that it is relative to. -/
def IsInside (p : String) : Prop :=
  ¬ LeadsOut p ∧ elements p ≠ []

instance (p : String) : Decidable (IsInside p) :=
  inferInstanceAs (Decidable (¬ LeadsOut p ∧ elements p ≠ []))

theorem toList_clean {p : String} (h : elements p ≠ []) :
    (clean p).toList = spell (isRooted p) (elements p) := by
  rw [clean_eq_spell, if_neg (fun hnil => h hnil.2), String.toList_ofList]

theorem IsInside.toList_clean {p : String} (h : IsInside p) :
    (clean p).toList = spell false (elements p) := by
  have hrooted : isRooted p = false := Bool.eq_false_iff.2 fun hroot => h.1 (.inl hroot)
  rw [SlashPath.toList_clean h.2, hrooted]

/-- A path inside a directory stands behind it. -/
theorem join_pair_eq {p : String} (h : IsInside p) (dir : String) :
    (join [dir, p]).toList = front (isRooted dir) (elements dir) ++ (clean p).toList := by
  rcases elements_join_pair h.1 dir with ⟨hrooted, helements⟩
  have hsome : elements (join [dir, p]) ≠ [] := by
    rw [helements]
    exact List.append_ne_nil_of_right_ne_nil _ h.2
  have hne : p ≠ "" := by
    rintro rfl
    exact h.2 rfl
  have hclean : clean (join [dir, p]) = join [dir, p] := isClean_join (by simp) hne
  rw [← hclean, SlashPath.toList_clean hsome, hrooted, helements, spell_append _ _ h.2,
    h.toList_clean]

theorem front_inside {dir : String} (h : IsInside dir) :
    front (isRooted dir) (elements dir) = (clean dir).toList ++ ['/'] := by
  have hrooted : isRooted dir = false := Bool.eq_false_iff.2 fun hroot => h.1 (.inl hroot)
  rw [front, if_neg h.2, h.toList_clean, hrooted]

/-- A path inside a directory that is a clean path inside another one. -/
theorem join_inside {dir p : String} (hdir : IsInside dir) (hp : IsInside p) (hclean : IsClean p) :
    join [dir, p] = clean dir ++ "/" ++ p := by
  apply String.toList_injective
  rw [join_pair_eq hp, front_inside hdir, hclean, String.toList_append, String.toList_append]
  rfl

/-- The last character of a path that names something is no slash. -/
theorem endsWith_clean {p : String} (h : elements p ≠ []) :
    Text.endsWith (clean p) "/" = false := by
  rcases List.eq_nil_or_concat (elements p) with hnil | ⟨es, e, hes⟩
  · exact absurd hnil h
  · have he := mem_elements (p := p) (e := e) (by simp [hes])
    rw [Bool.eq_false_iff]
    intro hends
    rcases Text.endsWith_iff.1 hends with ⟨before, hbefore⟩
    have hlast := congrArg (fun s : String => s.toList.getLast?) hbefore
    simp only [SlashPath.toList_clean h, hes, List.concat_eq_append, spell_concat,
      List.getLast?_append_of_ne_nil _ he.1, String.toList_append] at hlast
    have hslash : e.getLast? = some '/' := hlast.trans (by simp)
    exact he.2.2 (List.mem_of_getLast? hslash)

/-! ## Extensions -/

theorem lastElement_append_slash (before after : List Char) :
    lastElement (before ++ '/' :: after) = lastElement after := by
  rw [lastElement, lastElement, List.reverse_append, List.reverse_cons, List.append_assoc,
    List.takeWhile_append]
  split
  · next hall =>
      have hself : after.reverse.takeWhile (· != '/') = after.reverse :=
        List.takeWhile_sublist _ |>.eq_of_length hall
      rw [List.singleton_append, List.takeWhile_cons_of_neg (by simp), List.append_nil, hself]
  · rfl

theorem ext_append_slash (before after : String) : ext (before ++ "/" ++ after) = ext after := by
  have hlist : (before ++ "/" ++ after).toList = before.toList ++ '/' :: after.toList := by
    rw [String.toList_append, String.toList_append]
    simp
  rw [ext, ext, hlist, lastElement_append_slash]

/-- A path ends in its extension. -/
theorem exists_append_ext (p : String) : ∃ stem, p = stem ++ ext p := by
  have hlast : p.toList = beforeLast p.toList ++ lastElement p.toList := by
    rw [beforeLast, lastElement, ← List.reverse_append, List.takeWhile_append_dropWhile,
      List.reverse_reverse]
  unfold ext
  dsimp only
  split
  · next hpoint =>
      generalize lastElement p.toList = last at hlast hpoint
      -- behind the letters of the extension stands its point
      have hdrop : last.reverse.dropWhile (· != '.') ≠ [] := by
        intro hnil
        have hmem : '.' ∈ last.reverse := List.mem_reverse.2 (List.contains_iff_mem.1 hpoint)
        have hall := List.dropWhile_eq_nil_iff.1 hnil '.' hmem
        simp at hall
      rcases List.exists_cons_of_ne_nil hdrop with ⟨c, rest, hrest⟩
      have hc : c = '.' := by
        have hnot := List.head?_dropWhile_not (· != '.') last.reverse
        rw [hrest] at hnot
        simpa using hnot
      have hsplit : last = rest.reverse ++ '.' :: (last.reverse.takeWhile (· != '.')).reverse := by
        have hwhole := List.takeWhile_append_dropWhile (p := (· != '.')) (l := last.reverse)
        rw [hrest, hc] at hwhole
        have hback := congrArg List.reverse hwhole
        rw [List.reverse_append, List.reverse_cons, List.reverse_reverse, List.append_assoc]
          at hback
        exact hback.symm
      refine ⟨String.ofList (beforeLast p.toList ++ rest.reverse), String.toList_injective ?_⟩
      rw [String.toList_append, String.toList_ofList, String.toList_ofList, List.append_assoc,
        ← hsplit]
      exact hlast
  · exact ⟨p, String.append_empty.symm⟩

/-- A path without its extension keeps what stands in front of a slash. -/
theorem cutExt_append_slash (before after : String) :
    Text.cutSuffix (before ++ "/" ++ after) (ext (before ++ "/" ++ after)) =
      before ++ "/" ++ Text.cutSuffix after (ext after) := by
  rcases exists_append_ext after with ⟨stem, hstem⟩
  have hcut : Text.cutSuffix after (ext after) = stem := by
    have hback := Text.cutSuffix_append stem (ext after)
    rwa [← hstem] at hback
  have hmoved := Text.cutSuffix_append (before ++ "/" ++ stem) (ext after)
  rw [String.append_assoc, ← hstem] at hmoved
  rw [ext_append_slash, hcut, hmoved]

/-! ## Addresses that are clean paths -/

/-- An address that cleaning changes at most by a slash at the end. -/
def IsTidy (base : String) : Prop :=
  base = "/" ∨ ∃ p, IsClean p ∧ elements p ≠ [] ∧ (base = p ∨ base = p ++ "/")

/-- Without a slash at the end, a text is left alone or has lost one. -/
theorem cutSlash_cases (base : String) : base = Text.cutSuffix base "/" ∨
    base = Text.cutSuffix base "/" ++ "/" := by
  cases hends : Text.endsWith base "/" with
  | false =>
      exact .inl (Text.cutSuffix_of_not_endsWith hends).symm
  | true =>
      rcases Text.endsWith_iff.1 hends with ⟨before, rfl⟩
      rw [Text.cutSuffix_append]
      exact .inr rfl

theorem elements_append_slash_string {p : String} (h : p ≠ "") :
    isRooted (p ++ "/") = isRooted p ∧ elements (p ++ "/") = elements p := by
  have hne : p.toList ≠ [] := by simpa using h
  have hlist : p ++ "/" = String.ofList (p.toList ++ ['/']) := by
    apply String.toList_injective
    rw [String.toList_ofList, String.toList_append]
    rfl
  have hback : String.ofList p.toList = p := String.ofList_toList
  have hrooted := isRooted_append_slash hne
  have helements := elements_append_slash hne
  rw [hback, ← hlist] at hrooted helements
  exact ⟨hrooted, helements⟩

/-- What stands in front of names that are joined to an address is the address, if it is tidy. -/
theorem front_eq_iff {base : String} (hbase : base ≠ "") :
    front (isRooted base) (elements base) = (Text.cutSuffix base "/").toList ++ ['/'] ↔
      IsTidy base := by
  constructor
  · intro hfront
    by_cases hnone : elements base = []
    · rw [hnone, front, if_pos rfl] at hfront
      cases hrooted : isRooted base with
      | false =>
          rw [hrooted] at hfront
          simp at hfront
      | true =>
          rw [hrooted, if_pos rfl] at hfront
          have hempty : Text.cutSuffix base "/" = "" := by
            apply String.toList_injective
            simpa using hfront
          have hslash := (cutSlash_cases base).resolve_left fun hsame => hbase (hsame.trans hempty)
          rw [hempty] at hslash
          exact .inl hslash
    · rw [front, if_neg hnone, List.append_left_inj] at hfront
      have hclean : Text.cutSuffix base "/" = clean base := by
        apply String.toList_injective
        rw [← hfront, toList_clean hnone]
      refine .inr ⟨clean base, isClean_clean base, by rwa [elements_clean], ?_⟩
      rw [← hclean]
      exact cutSlash_cases base
  · rintro (rfl | ⟨p, hclean, hsome, rfl | rfl⟩)
    · decide
    · have hends := endsWith_clean hsome
      rw [hclean] at hends
      rw [Text.cutSuffix_of_not_endsWith hends, front, if_neg hsome, ← toList_clean hsome, hclean]
    · rcases elements_append_slash_string hclean.ne_empty with ⟨hrooted, helements⟩
      rw [Text.cutSuffix_append, hrooted, helements, front, if_neg hsome,
        ← toList_clean hsome, hclean]

end SlashPath

/-! ## Addresses of pages -/

namespace ModulePages

open SlashPath

variable {opts : PageOptions} {dir file : String}

theorem toList_pageUrl (opts : PageOptions) (file : String) : (pageUrl opts file).toList =
    (Text.cutSuffix opts.linkBase "/").toList ++ '/' ::
      (Text.lower (Text.cutSuffix file (ext file))).toList ++ ['/'] := by
  rw [pageUrl, String.toList_append, String.toList_append, String.toList_append]
  simp

/-- Where a page is served that was moved into a directory. -/
theorem toList_pageUrl_moved (opts : PageOptions) (hdir : IsInside dir) (hfile : IsInside file)
    (hclean : IsClean file) : (pageUrl opts (join [dir, file])).toList =
      (Text.cutSuffix opts.linkBase "/").toList ++ ['/'] ++ (Text.lower (clean dir)).toList ++
        '/' :: (Text.lower (Text.cutSuffix file (ext file))).toList ++ ['/'] := by
  have hslash : Text.lower "/" = "/" := by decide
  rw [toList_pageUrl, join_inside hdir hfile hclean, cutExt_append_slash, Text.lower_append,
    Text.lower_append, hslash, String.toList_append, String.toList_append]
  simp

/-- Where a link to a page leads if the directory is joined to the address instead. -/
theorem toList_pageUrl_joined (opts : PageOptions) (base : String) (hdir : IsInside dir)
    (file : String) : (pageUrl { opts with linkBase := join [base, dir] } file).toList =
      front (isRooted base) (elements base) ++ (clean dir).toList ++
        '/' :: (Text.lower (Text.cutSuffix file (ext file))).toList ++ ['/'] := by
  have hends : Text.endsWith (join [base, dir]) "/" = false := by
    have hsome : elements (join [base, dir]) ≠ [] := by
      rw [(elements_join_pair hdir.1 base).2]
      exact List.append_ne_nil_of_right_ne_nil _ hdir.2
    have hclean : clean (join [base, dir]) = join [base, dir] := by
      have hmem : dir ∈ [base, dir] := by simp
      refine isClean_join hmem ?_
      rintro rfl
      exact hdir.2 rfl
    rw [← hclean]
    exact endsWith_clean hsome
  rw [toList_pageUrl]
  dsimp only
  rw [Text.cutSuffix_of_not_endsWith hends, join_pair_eq hdir]

/-- A link agrees with where the moved page is served if the directory has no capital and the
address is tidy, and only then. -/
theorem pageUrl_eq_moved_iff (opts : PageOptions) (hbase : opts.linkBase ≠ "") (hdir : IsInside dir)
    (hfile : IsInside file) (hclean : IsClean file) :
    pageUrl { opts with linkBase := join [opts.linkBase, dir] } file =
      pageUrl opts (join [dir, file]) ↔
      IsTidy opts.linkBase ∧ Text.lower (clean dir) = clean dir := by
  have hlength : (clean dir).toList.length = (Text.lower (clean dir)).toList.length := by
    rw [Text.toList_lower, List.length_map]
  rw [← String.toList_inj, toList_pageUrl_joined opts opts.linkBase hdir,
    toList_pageUrl_moved opts hdir hfile hclean, List.append_left_inj, List.append_left_inj,
    ← front_eq_iff hbase]
  constructor
  · intro heq
    rcases List.append_inj' heq hlength with ⟨hfront, hlower⟩
    exact ⟨hfront, String.toList_injective hlower.symm⟩
  · rintro ⟨hfront, hlower⟩
    rw [hfront, hlower]

end ModulePages
namespace RustdocRun

open SlashPath ModulePages

variable {packing : Packing} {s : Settings} {g : GraphInput} {files : FileTree} {t : Tree}

/-! ## Links of a graph -/

theorem exists_ofIndex_of_treeOf (h : treeOf packing files g = .ok t) :
    ∃ idx, Tree.ofIndex idx g.mode "" = .ok t := by
  unfold treeOf at h
  cases hindex : indexOf packing files g.source with
  | error e =>
      rw [hindex] at h
      cases h
  | ok idx =>
      rw [hindex] at h
      refine ⟨idx, ?_⟩
      cases htree : Tree.ofIndex idx g.mode "" with
      | error e =>
          simp [htree] at h
      | ok t' =>
          simp [htree] at h
          rw [h]

/-- Where a page is served: below the configured address, by its final name. -/
def servedAt (s : Settings) (page : Page) : String :=
  pageUrl { linkBase := s.rustdoc.linkBase } page.file

/-- The options with which a graph in a directory of its own is rendered. -/
theorem linkBase_optionsOf (hbase : s.rustdoc.linkBase ≠ "") (hdir : g.subdir ≠ "") :
    (optionsOf s g).linkBase = join [s.rustdoc.linkBase, g.subdir] := by
  have hnone : (s.rustdoc.linkBase.isEmpty || g.subdir.isEmpty) = false := by
    simp [hbase, hdir]
  rw [optionsOf, hnone]
  rfl

/-- The page of a module in the directory of its graph. -/
theorem file_pagesOf (hdir : g.subdir ≠ "") {i : Nat} {m : Module} (hm : t.modules[i]? = some m) :
    ∃ page, (pagesOf s g t)[i]? = some page ∧
      page.file = join [g.subdir, (frame (optionsOf s g) t.mode m).file] := by
  have hsubdir : g.subdir.isEmpty = false := by simpa using hdir
  rw [pagesOf, render, List.map_map, List.getElem?_map, hm, Option.map_some]
  refine ⟨_, rfl, ?_⟩
  rw [Function.comp_apply, relocate, hsubdir]
  rfl

/-- A link to a page whose name is a clean path inside agrees with where the page is served if the
directory has no capital and the address is tidy, and only then. -/
theorem pageUrl_eq_servedAt_iff (hbase : s.rustdoc.linkBase ≠ "") (hdir : IsInside g.subdir)
    {file : String} (hfile : IsInside file) (hclean : IsClean file) {page : Page}
    (hpage : page.file = join [g.subdir, file]) (anchor : String) :
    pageUrl (optionsOf s g) file ++ anchor = servedAt s page ++ anchor ↔
      IsTidy s.rustdoc.linkBase ∧ Text.lower (clean g.subdir) = clean g.subdir := by
  have hsubdir : g.subdir ≠ "" := by
    intro hempty
    rw [hempty] at hdir
    exact hdir.2 rfl
  have hurl : pageUrl (optionsOf s g) file =
      pageUrl { linkBase := join [s.rustdoc.linkBase, g.subdir] } file := by
    rw [pageUrl, linkBase_optionsOf hbase hsubdir]
    rfl
  rw [String.append_left_inj, hurl, servedAt, hpage]
  exact pageUrl_eq_moved_iff { linkBase := s.rustdoc.linkBase } hbase hdir hfile hclean

/-- Each link on the pages of a graph in a directory of its own leads out of the tree, or to a page
of the graph; and then it agrees with where the page is served, for pages whose names are clean
paths inside, exactly if the directory has no capital and the address is tidy. -/
theorem linkTable_agrees (htree : treeOf packing files g = .ok t) (hbase : s.rustdoc.linkBase ≠ "")
    (hdir : IsInside g.subdir) {links : List (String × ItemId)} {text url : String}
    (hlink : (text, url) ∈ linkTable (optionsOf s g) t links) :
    ∃ id, (text, id) ∈ links ∧ (t.resolve? id = some (.external url) ∨
      ∃ (target : ItemId) (item : String) (i : Nat) (m : Module) (page : Page),
        t.resolve? id = some (.internal target item) ∧
        t.modules[i]? = some m ∧ m.id = target ∧ (pagesOf s g t)[i]? = some page ∧
        (IsInside (frame (optionsOf s g) t.mode m).file →
          IsClean (frame (optionsOf s g) t.mode m).file →
          (url = servedAt s page ++ (if item.isEmpty then "" else "#" ++ Text.lower item) ↔
            IsTidy s.rustdoc.linkBase ∧ Text.lower (clean g.subdir) = clean g.subdir))) := by
  have hsubdir : g.subdir ≠ "" := by
    intro hempty
    rw [hempty] at hdir
    exact hdir.2 rfl
  rcases exists_ofIndex_of_treeOf htree with ⟨idx, hindex⟩
  rw [linkTable] at hlink
  split at hlink
  · cases hlink
  · rcases List.mem_filterMap.1 hlink with ⟨⟨text', id⟩, hmem, hurl⟩
    rcases Option.map_eq_some_iff.1 hurl with ⟨url', hurl', heq⟩
    cases heq
    rcases Option.bind_eq_some_iff.1 hurl' with ⟨target, hresolve, htarget⟩
    refine ⟨id, hmem, ?_⟩
    cases target with
    | external url' =>
        cases htarget
        exact .inl hresolve
    | «internal» target item =>
        rcases Tree.exists_module_of_internal hindex hresolve with ⟨m, hm, hid, hfind, -⟩
        rcases List.mem_iff_getElem?.1 hm with ⟨i, hi⟩
        rcases file_pagesOf (s := s) hsubdir hi with ⟨page, hpage, hfile⟩
        refine .inr ⟨target, item, i, m, page, hresolve, hi, hid, hpage, fun hinside hclean => ?_⟩
        rw [targetUrl?, hfind, Option.map_some] at htarget
        cases htarget
        exact pageUrl_eq_servedAt_iff hbase hdir hinside hclean hfile _

/-! ### A crate whose name has a capital -/

def site : Settings where
  extension := ".mdx"
  rustdoc :=
    { crateName := "engine", graphName := "pai_engine", outputDir := "out/rust", targets := []
      linkBase := "/docs" }

/-- The graph of a published crate with one module. -/
def published (name : String) : GraphInput where
  label := name
  source := .data (.ofText (nestedGraph "cases"))
  crateName := name
  subdir := name

/-- What there is to see of a published crate: where the link to its module leads and what its
address is, and the names of the pages before and after they are moved. -/
structure Survey where
  target? : Option LinkTarget
  table : Markdown.LinkTable
  names : List String
  files : List String
  deriving DecidableEq

def surveyOf (name : String) : Option Survey :=
  (treeOf .stored {} (published name)).toOption.map fun t =>
    { target? := t.resolve? "1"
      table := linkTable (optionsOf site (published name)) t [("cases", "1")]
      names := t.modules.map fun m => (frame (optionsOf site (published name)) t.mode m).file
      files := (pagesOf site (published name) t).map Page.file }

theorem exists_tree_of_surveyOf {name : String} {seen : Survey} (h : surveyOf name = some seen) :
    ∃ t, treeOf .stored {} (published name) = .ok t ∧ t.resolve? "1" = seen.target? ∧
      linkTable (optionsOf site (published name)) t [("cases", "1")] = seen.table ∧
      (t.modules.map fun m => (frame (optionsOf site (published name)) t.mode m).file) =
        seen.names ∧
      (pagesOf site (published name) t).map Page.file = seen.files := by
  unfold surveyOf at h
  cases htree : treeOf .stored {} (published name) with
  | error e =>
      rw [htree] at h
      cases h
  | ok t =>
      rw [htree] at h
      cases h
      exact ⟨t, rfl, rfl, rfl, rfl, rfl⟩

/-- A crate in lower case has links that agree with where its pages are served. -/
theorem linkTable_agrees_lower : ∃ t, treeOf .stored {} (published "inflector") = .ok t ∧
    ∃ page ∈ pagesOf site (published "inflector") t,
      ("cases", servedAt site page) ∈
        linkTable (optionsOf site (published "inflector")) t [("cases", "1")] := by
  have hseen : surveyOf "inflector" = some
      { target? := some (.internal "1" "")
        table := [("cases", "/docs/inflector/inflector/cases/")]
        names := ["crate.mdx", "inflector/cases.mdx"]
        files := ["inflector/crate.mdx", "inflector/inflector/cases.mdx"] } := by
    decide +kernel
  rcases exists_tree_of_surveyOf hseen with ⟨t, htree, htarget, htable, hnames, -⟩
  have hlink : ("cases", "/docs/inflector/inflector/cases/") ∈
      linkTable (optionsOf site (published "inflector")) t [("cases", "1")] := by
    rw [htable]
    exact List.mem_singleton.2 rfl
  have htidy : IsTidy site.rustdoc.linkBase :=
    .inr ⟨"/docs", show clean "/docs" = "/docs" by decide, by decide, .inl rfl⟩
  rcases linkTable_agrees htree (by decide) (by decide) hlink with
    ⟨id, hid, hexternal | ⟨target, item, i, m, page, hresolve, hm, -, hpage, hagrees⟩⟩
  · cases List.mem_singleton.1 hid
    rw [htarget] at hexternal
    cases hexternal
  · cases List.mem_singleton.1 hid
    rw [htarget] at hresolve
    cases hresolve
    have hfile := List.mem_map_of_mem
      (f := fun m => (frame (optionsOf site (published "inflector")) t.mode m).file)
      (List.mem_of_getElem? hm)
    rw [hnames] at hfile
    have hplain : ∀ file ∈ ["crate.mdx", "inflector/cases.mdx"],
        IsInside file ∧ clean file = file := by
      decide
    rcases hplain _ hfile with ⟨hinside, hclean⟩
    have hserved := (hagrees hinside hclean).2 ⟨htidy, by decide⟩
    refine ⟨t, htree, page, List.mem_of_getElem? hpage, ?_⟩
    have hsame : "/docs/inflector/inflector/cases/" = servedAt site page :=
      hserved.trans String.append_empty
    rwa [← hsame]

/-- The link to a module of a crate with a capital in its name differs from where the module's page
is served. -/
theorem linkTable_capital : ∃ t, treeOf .stored {} (published "Inflector") = .ok t ∧
    ∃ page ∈ pagesOf site (published "Inflector") t, page.file = "Inflector/Inflector/cases.mdx" ∧
      servedAt site page = "/docs/inflector/inflector/cases/" ∧
      linkTable (optionsOf site (published "Inflector")) t [("cases", "1")] =
        [("cases", "/docs/Inflector/inflector/cases/")] := by
  have hseen : surveyOf "Inflector" = some
      { target? := some (.internal "1" "")
        table := [("cases", "/docs/Inflector/inflector/cases/")]
        names := ["crate.mdx", "Inflector/cases.mdx"]
        files := ["Inflector/crate.mdx", "Inflector/Inflector/cases.mdx"] } := by
    decide +kernel
  rcases exists_tree_of_surveyOf hseen with ⟨t, htree, -, htable, -, hfiles⟩
  have hfile : "Inflector/Inflector/cases.mdx" ∈
      (pagesOf site (published "Inflector") t).map Page.file := by
    rw [hfiles]
    decide
  rcases List.mem_map.1 hfile with ⟨page, hpage, hname⟩
  refine ⟨t, htree, page, hpage, hname, ?_, htable⟩
  rw [servedAt, hname]
  decide

end RustdocRun
end ApiPages

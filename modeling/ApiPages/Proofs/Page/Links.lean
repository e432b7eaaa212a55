import ApiPages.Page.Module
import ApiPages.Proofs.Graph.Ownership

/-!
# Links between the pages of a tree

A link that stays inside a tree leads to the page of one of its modules, and to a heading on that
page if it names an item.

* `HoldsLine` says that a text stands on lines of its own;
* `ModulePages.holdsLine_body` finds the heading of every entry on the page of its module, through
  the section the entry belongs to;
* `Tree.resolve?_internal` puts it together with the owners of a tree: which links stay inside, that
  each of them has a page and a heading, and that no link is lost for want of a page.
-/

namespace ApiPages

namespace ModulePages

/-! ## Lines of a text -/

def EndsLine (s : String) : Prop :=
  ∃ front, s = front ++ "\n"

/-- The text stands in the body on lines of its own. -/
def HoldsLine (body text : String) : Prop :=
  ∃ before after, body = before ++ "\n" ++ text ++ "\n" ++ after

theorem EndsLine.append (front : String) {s : String} (h : EndsLine s) : EndsLine (front ++ s) := by
  rcases h with ⟨front', rfl⟩
  exact ⟨front ++ front', String.append_assoc.symm⟩

theorem EndsLine.join {front : String} (hfront : EndsLine front) {texts : List String}
    (h : ∀ s ∈ texts, EndsLine s) : EndsLine (front ++ String.join texts) := by
  induction texts generalizing front with
  | nil =>
      simpa using hfront
  | cons s texts ih =>
      have hs : EndsLine (front ++ s) := EndsLine.append front (h s (List.mem_cons_self ..))
      have hall := ih hs fun s' hs' => h s' (List.mem_cons_of_mem _ hs')
      rwa [String.join_cons, ← String.append_assoc]

theorem HoldsLine.append_left (front : String) {body text : String} (h : HoldsLine body text) :
    HoldsLine (front ++ body) text := by
  rcases h with ⟨before, after, rfl⟩
  exact ⟨front ++ before, after, by simp only [String.append_assoc]⟩

theorem HoldsLine.append_right {body text : String} (h : HoldsLine body text) (rest : String) :
    HoldsLine (body ++ rest) text := by
  rcases h with ⟨before, after, rfl⟩
  exact ⟨before, after ++ rest, by simp only [String.append_assoc]⟩

theorem HoldsLine.join {body text : String} (h : HoldsLine body text) {texts : List String}
    (hbody : body ∈ texts) : HoldsLine (String.join texts) text := by
  rcases List.append_of_mem hbody with ⟨before, after, rfl⟩
  rw [String.join_append, String.join_cons]
  exact (h.append_right _).append_left _

/-! ## Entries and sections -/

/-- The line with which the text of an entry begins. -/
def headingLine (name : String) : String :=
  "### `" ++ name ++ "`"

/-- Every entry but that of a submodule has a text, with a heading in front and a rule at the
end. -/
theorem exists_entryText (r : Renderer) {e : Entry} (h : e.detail ≠ .module) :
    ∃ title ∈ sections, ∃ parts,
      entryText? r e = some (title, heading e.name ++ (parts ++ "---\n\n")) := by
  -- the kinds differ in which two parts stand between heading and rule
  have hparts : ∀ title first second : String,
    some (title, heading e.name ++ first ++ second ++ "---\n\n") =
      some (title, heading e.name ++ (first ++ second ++ "---\n\n")) := by
    intro title first second
    simp only [String.append_assoc]
  cases hdetail : e.detail with
  | module =>
      exact absurd hdetail h
  | _ =>
      simp only [entryText?, hdetail]
      exact ⟨_, by decide, _, hparts _ _ _⟩

theorem endsLine_entryText {r : Renderer} {e : Entry} {x : String × String}
    (h : entryText? r e = some x) : EndsLine x.2 := by
  have hdetail : e.detail ≠ .module := by
    intro hmodule
    simp [entryText?, hmodule] at h
  rcases exists_entryText r hdetail with ⟨title, -, parts, htext⟩
  rw [htext] at h
  cases h
  have hrule : EndsLine "---\n\n" := ⟨"---\n", rfl⟩
  exact (hrule.append parts).append _

/-- An entry of a section begins a line: before it stands the section's title or another entry. -/
theorem holdsLine_sectionText {entries : List (String × String)} {title text line rest : String}
    (hends : ∀ x ∈ entries, EndsLine x.2) (hmem : (title, text) ∈ entries)
    (htext : text = line ++ "\n" ++ rest) : HoldsLine (sectionText entries title) line := by
  have hown : (title, text) ∈ entries.filter (·.1 == title) :=
    List.mem_filter.2 ⟨hmem, BEq.rfl⟩
  have hne : (entries.filter (·.1 == title)).isEmpty = false := by
    rw [List.isEmpty_eq_false_iff]
    exact List.ne_nil_of_mem hown
  rcases List.append_of_mem (List.mem_map_of_mem (f := Prod.snd) hown) with ⟨before, after, hsplit⟩
  have hfront : EndsLine ("## " ++ title ++ "\n\n" ++ String.join before) := by
    refine EndsLine.join (EndsLine.append _ ⟨"\n", rfl⟩) ?_
    intro s hs
    have hs' : s ∈ (entries.filter (·.1 == title)).map Prod.snd := by
      rw [hsplit]
      exact List.mem_append_left _ hs
    rcases List.mem_map.1 hs' with ⟨x, hx, rfl⟩
    exact hends x (List.mem_filter.1 hx).1
  rcases hfront with ⟨front, hfront⟩
  refine ⟨front, rest ++ String.join after, ?_⟩
  calc
    sectionText entries title
        = "## " ++ title ++ "\n\n" ++ String.join (before ++ text :: after) := by
          simp only [sectionText, hne, Bool.false_eq_true, if_false, ← hsplit]
    _ = "## " ++ title ++ "\n\n" ++ String.join before ++ (text ++ String.join after) := by
          rw [String.join_append, String.join_cons, String.append_assoc]
          simp only [String.append_assoc]
    _ = front ++ "\n" ++ line ++ "\n" ++ (rest ++ String.join after) := by
          rw [hfront, htext]
          simp only [String.append_assoc]

/-- The page of a module has a heading for each of its entries other than submodules. -/
theorem holdsLine_body (r : Renderer) {m : Module} {e : Entry} (he : e ∈ m.entries)
    (hdetail : e.detail ≠ .module) : HoldsLine (body r m) (headingLine e.name) := by
  rcases exists_entryText r hdetail with ⟨title, htitle, parts, htext⟩
  have hmem : (title, heading e.name ++ (parts ++ "---\n\n")) ∈
      m.entries.filterMap (entryText? r) :=
    List.mem_filterMap.2 ⟨e, he, htext⟩
  have hheading : heading e.name ++ (parts ++ "---\n\n") =
      headingLine e.name ++ "\n" ++ ("\n" ++ (parts ++ "---\n\n")) := by
    simp only [heading, headingLine, String.append_assoc]
    rfl
  have hends : ∀ x ∈ m.entries.filterMap (entryText? r), EndsLine x.2 := by
    intro x hx
    rcases List.mem_filterMap.1 hx with ⟨e', -, htext'⟩
    exact endsLine_entryText htext'
  have hsection := holdsLine_sectionText hends hmem hheading
  rw [body]
  exact (hsection.join (List.mem_map_of_mem htitle)).append_left _

end ModulePages

/-! ## Trees -/

namespace Tree

open ModulePages

variable {idx : Index} {mode : Mode} {root : ItemId} {t : Tree}

/-- A link that stays inside leads to a module of the tree, and to an entry of it if it names an
item. -/
theorem exists_module_of_internal (h : ofIndex idx mode root = .ok t) {id target : ItemId}
    {item : String} (hresolve : t.resolve? id = some (.internal target item)) :
    ∃ m ∈ t.modules, m.id = target ∧ t.modules.find? (·.id == target) = some m ∧
      (item ≠ "" → ∃ e ∈ m.entries, e.detail ≠ .module ∧ e.name = item) := by
  rcases owner?_eq_some (resolve?_internal_iff.1 hresolve) with ⟨m, hm, item', heq, hitem⟩
  cases heq
  exact ⟨m, hm, rfl, find?_of_mem h hm, fun hne => hitem.resolve_left hne⟩

/-- Every link that is resolved has an address: that of a page inside the tree, or the one it came
with. -/
theorem exists_targetUrl (h : ofIndex idx mode root = .ok t) (opts : PageOptions) {id : ItemId}
    {target : LinkTarget} (hresolve : t.resolve? id = some target) :
    ∃ url, targetUrl? opts t target = some url := by
  cases target with
  | external url =>
      exact ⟨url, rfl⟩
  | «internal» target item =>
      rcases exists_module_of_internal h hresolve with ⟨m, -, -, hfind, -⟩
      rw [targetUrl?, hfind]
      exact ⟨_, rfl⟩

/-- No link that is resolved is left out of the table of addresses. -/
theorem map_fst_linkTable (h : ofIndex idx mode root = .ok t) {opts : PageOptions}
    (hbase : opts.linkBase ≠ "") (links : List (String × ItemId)) :
    (linkTable opts t links).map Prod.fst =
      (links.filter fun link => (t.resolve? link.2).isSome).map Prod.fst := by
  have hbase' : opts.linkBase.isEmpty = false := by
    simpa using hbase
  simp only [linkTable, hbase', Bool.false_eq_true, if_false, List.map_filterMap]
  rw [← List.filterMap_eq_filter, List.map_filterMap]
  refine List.filterMap_congr ?_
  rintro ⟨text, id⟩ -
  cases hresolve : t.resolve? id with
  | none =>
      simp [hresolve, Option.guard]
  | some target =>
      rcases exists_targetUrl h opts hresolve with ⟨url, hurl⟩
      simp [hresolve, hurl, Option.guard]

/-- Links inside a tree.  They are those to its modules and to the leaves its modules list; each
leads to the page of a module of the tree, with the heading of the item it names; and so every link
that is resolved gets an address. -/
theorem resolve?_internal (h : ofIndex idx mode root = .ok t) :
    (∀ id, (∃ m item, t.resolve? id = some (.internal m item)) ↔ id ∈ t.modules.map Module.id ∨
      ∃ m ∈ t.modules, id ∈ idx.listedBy m.id ∧ ∃ k, idx.kind? id = some k ∧ k ≠ .module) ∧
    (∀ id target item, t.resolve? id = some (.internal target item) → ∀ survey opts,
      ∃ (i : Nat) (m : Module) (page : Page), t.modules[i]? = some m ∧ m.id = target ∧
        (render survey opts t)[i]? = some page ∧
        targetUrl? opts t (.internal target item) =
          some (pageUrl opts page.file ++ if item.isEmpty then "" else "#" ++ Text.lower item) ∧
        (item ≠ "" → HoldsLine page.body ("### `" ++ item ++ "`"))) ∧
    (∀ opts links, opts.linkBase ≠ "" →
      (linkTable opts t links).map Prod.fst =
        (links.filter fun link => (t.resolve? link.2).isSome).map Prod.fst) := by
  refine ⟨?_, ?_, ?_⟩
  · intro id
    refine Iff.trans ?_ (owner?_isSome_iff h id)
    constructor
    · rintro ⟨m, item, hresolve⟩
      rw [resolve?_internal_iff.1 hresolve]
      rfl
    · intro hsome
      rcases Option.isSome_iff_exists.1 hsome with ⟨target, howner⟩
      rcases owner?_eq_some howner with ⟨m, -, item, rfl, -⟩
      exact ⟨m.id, item, resolve?_internal_iff.2 howner⟩
  · intro id target item hresolve survey opts
    rcases exists_module_of_internal h hresolve with ⟨m, hm, hid, hfind, hitem⟩
    rcases List.mem_iff_getElem?.1 hm with ⟨i, hi⟩
    refine ⟨i, m, _, hi, hid, by rw [render, List.getElem?_map, hi, Option.map_some], ?_, ?_⟩
    · simp only [targetUrl?, hfind, Option.map_some]
    · intro hne
      rcases hitem hne with ⟨e, he, hdetail, rfl⟩
      exact holdsLine_body _ he hdetail
  · intro opts links hbase
    exact map_fst_linkTable h hbase links

/-- A root that lists an enumeration and an empty module. -/
def paletteIndex : Index :=
  { root := "0"
    items :=
      [("0", moduleListing ["1", "2"]),
        ("1", .object "" [("name", .string "" "Color"), ("inner", .object "" [("enum", .null)])]),
        ("2", moduleListing [])] }

theorem resolve?_paletteIndex :
    ∃ t, ofIndex paletteIndex .library "" = .ok t ∧ t.resolve? "1" = some (.internal "0" "Color") ∧
      (∀ survey opts, ∃ page ∈ render survey opts t, HoldsLine page.body "### `Color`") ∧
      ¬∃ m item, t.resolve? "2" = some (.internal m item) := by
  have hroot : paletteIndex.kind? (paletteIndex.rootFor "") = some .module := by decide
  have htree := ofIndex_of_module_root .library hroot
  rcases resolve?_internal htree with ⟨hinside, hpage, -⟩
  refine ⟨_, htree, by decide, ?_, ?_⟩
  · intro survey opts
    rcases hpage "1" "0" "Color" (by decide) survey opts with ⟨i, m, page, -, -, hi, -, hline⟩
    exact ⟨page, List.mem_of_getElem? hi, hline (by decide)⟩
  · intro hresolve
    rcases (hinside "2").1 hresolve with hmem | ⟨m, -, -, k, hk, hne⟩
    · exact absurd hmem (by decide)
    · have hmodule : paletteIndex.kind? "2" = some .module := by decide
      exact hne (Option.some.inj (hk.symm.trans hmodule))

end Tree
end ApiPages

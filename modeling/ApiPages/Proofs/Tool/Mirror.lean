import ApiPages.Proofs.Files.Copies
import ApiPages.Proofs.Run.Actions
import ApiPages.Run.Standard
import ApiPages.Tool.Cargo

/-!
# Documentation that is published

The documentation that cargo has built is copied to another directory, in the place of what was
there, and the crate's own folder is given the crate's name.

* `Tool.Mirrors` relates the files after publishing to the documentation: the same at the same
  places, but for the crate's folder;
* `Tool.chosenFolder?_eq_none_iff` says when nothing is published;
* `Tool.mirrors_of_publish` is about emptying, copying and renaming;
* `Tool.buildHtml_mirrors` puts this together, and `Tool.old_page_kept` shows a path for which the
  directory is not emptied.
-/

namespace ApiPages

open SlashPath

/-! ## The documentation of a crate -/

namespace Crate

variable {c : Crate}

theorem isClean_docDir (c : Crate) : IsClean c.docDir :=
  isClean_join (List.mem_cons_of_mem _ List.mem_cons_self) (by decide)

/-- The documentation lies neither above the working directory nor at the root. -/
theorem isBase_docDir (c : Crate) (rel : Place) :
    (Place.ofPath c.docDir ++ rel).isBase = false := by
  have hnames : ∀ name ∈ ["target", "doc"], IsName name.toList := by
    decide
  have hplace : Place.ofPath c.docDir = Place.ofPath c.dir ++ ["target", "doc"] :=
    Place.ofPath_join c.dir hnames
  have hdoc : "doc" ∈ Place.ofPath c.docDir ++ rel := by
    rw [hplace]
    simp
  exact Place.isBase_eq_false_of_isName hdoc (by decide)

end Crate

namespace Tool

variable {c : Crate} {w : Workspace} {t t' : FileTree} {folder name out : String}

def documentationCall (c : Crate) : Call where
  dir := c.dir
  name := "cargo"
  args := ["doc", "--no-deps"]

/-- What the call for the documentation leaves and says. -/
def documentation (c : Crate) (w : Workspace) : FileTree × Reply :=
  w.tools.run (documentationCall c) w.files

/-- The folder of the crate, if there is documentation to be published. -/
def chosenFolder? (c : Crate) (w : Workspace) : Option String :=
  match (documentation c w).2.fault? with
  | some _ => none
  | none => ((documentation c w).1.list? c.docDir).bind (crateFolder? c)

/-- Cargo has failed, or has left no documentation, or none with a folder of the crate. -/
def Undocumented (c : Crate) (w : Workspace) : Prop :=
  (documentation c w).2.fault? ≠ none ∨
    (documentation c w).1.node? (Place.ofPath c.docDir) ≠ some .dir ∨
    ∀ folder, (documentation c w).1.node? (Place.ofPath c.docDir ++ [folder]) = some .dir →
      folder ≠ c.name ∧ folder ≠ c.graphName

theorem list?_docDir (ht : t.Grounded) (c : Crate) {entries : List (String × FileNode)} :
    t.list? c.docDir = some entries ↔
      t.node? (Place.ofPath c.docDir) = some .dir ∧
        entries = t.children (Place.ofPath c.docDir) := by
  constructor
  · intro hlist
    unfold FileTree.list? at hlist
    split at hlist
    · cases hlist
    · next p hp =>
        rw [((FileTree.resolve_eq_ok_iff c.isClean_docDir).1 hp).1] at hlist
        split at hlist
        · next hdir =>
            cases hlist
            exact ⟨beq_iff_eq.1 hdir, rfl⟩
        · cases hlist
  · rintro ⟨hdir, rfl⟩
    exact FileTree.list?_eq c.isClean_docDir (ht.opens_of_node? hdir) hdir

theorem mem_children_docDir (ht : t.Grounded) (c : Crate) {n : FileNode} :
    (folder, n) ∈ t.children (Place.ofPath c.docDir) ↔
      t.node? (Place.ofPath c.docDir ++ [folder]) = some n := by
  rw [FileTree.mem_children_iff, ht.node?_eq_some_iff (c.isBase_docDir _)]

theorem chosenFolder?_spec (ht : (documentation c w).1.Grounded)
    (h : chosenFolder? c w = some folder) :
    (documentation c w).1.node? (Place.ofPath c.docDir) = some .dir ∧
      (documentation c w).1.node? (Place.ofPath c.docDir ++ [folder]) = some .dir ∧
      (folder = c.name ∨ folder = c.graphName) := by
  unfold chosenFolder? at h
  split at h
  · cases h
  · rcases Option.bind_eq_some_iff.1 h with ⟨entries, hlist, hfolder⟩
    rcases (list?_docDir ht c).1 hlist with ⟨hdir, rfl⟩
    rcases Option.map_eq_some_iff.1 hfolder with ⟨⟨found, n⟩, hfind, rfl⟩
    have hfits := List.find?_some hfind
    simp only [Bool.and_eq_true, Bool.or_eq_true, beq_iff_eq] at hfits
    have hmem := (mem_children_docDir ht c).1 (List.mem_of_find?_eq_some hfind)
    rw [hfits.1] at hmem
    exact ⟨hdir, hmem, hfits.2⟩

theorem chosenFolder?_eq_none_iff (ht : (documentation c w).1.Grounded) :
    chosenFolder? c w = none ↔ Undocumented c w := by
  unfold chosenFolder? Undocumented
  cases hfault : (documentation c w).2.fault? with
  | some fault =>
      exact iff_of_true rfl (.inl (fun heq => (nomatch heq)))
  | none =>
      dsimp only
      rw [or_iff_right (fun hne => hne rfl)]
      cases hlist : (documentation c w).1.list? c.docDir with
      | none =>
          refine iff_of_true rfl (.inl fun hdir => ?_)
          rw [(list?_docDir ht c).2 ⟨hdir, rfl⟩] at hlist
          cases hlist
      | some entries =>
          rcases (list?_docDir ht c).1 hlist with ⟨hdir, rfl⟩
          rw [or_iff_right (fun hne => hne hdir), Option.bind_some, crateFolder?,
            Option.map_eq_none_iff, List.find?_eq_none]
          constructor
          · intro hnone folder hfolder
            have hunfit := hnone _ ((mem_children_docDir ht c).2 hfolder)
            simpa using hunfit
          · rintro hnone ⟨found, n⟩ hmem hfits
            simp only [Bool.and_eq_true, Bool.or_eq_true, beq_iff_eq] at hfits
            have hnode := (mem_children_docDir ht c).1 hmem
            rw [hfits.1] at hnode
            exact hfits.2.elim (hnone found hnode).1 (hnone found hnode).2

/-! ## Steps of a run -/

theorem run_documentationCall (c : Crate) (w : Workspace) :
    (Action.call (documentationCall c)).run w = ((documentation c w).2,
      { w with files := (documentation c w).1, calls := w.calls ++ [documentationCall c] }) :=
  Action.run_call _

/-- Without a folder to be published only the call has changed files. -/
theorem buildHtml_of_none (out : String) (h : chosenFolder? c w = none) :
    (∃ f, ((buildHtml c out).run w).1 = some (.tool f)) ∧
      ((buildHtml c out).run w).2.files = (documentation c w).1 := by
  unfold chosenFolder? at h
  unfold buildHtml
  rw [← documentationCall, Action.run_bind, run_documentationCall]
  dsimp only
  cases hfault : (documentation c w).2.fault? with
  | some fault =>
      exact ⟨⟨_, rfl⟩, rfl⟩
  | none =>
      rw [hfault] at h
      dsimp only at h ⊢
      rw [Action.run_bind, Action.run_files]
      dsimp only
      cases hlist : (documentation c w).1.list? c.docDir with
      | none =>
          exact ⟨⟨_, rfl⟩, rfl⟩
      | some entries =>
          rw [hlist, Option.bind_some] at h
          dsimp only
          rw [h]
          exact ⟨⟨_, rfl⟩, rfl⟩

theorem buildHtml_of_some (h : chosenFolder? c w = some folder) :
    (buildHtml c out).run w = (publish c folder out).run
      { w with files := (documentation c w).1, calls := w.calls ++ [documentationCall c] } := by
  unfold chosenFolder? at h
  unfold buildHtml
  rw [← documentationCall, Action.run_bind, run_documentationCall]
  dsimp only
  cases hfault : (documentation c w).2.fault? with
  | some fault =>
      rw [hfault] at h
      cases h
  | none =>
      rw [hfault] at h
      rcases Option.bind_eq_some_iff.1 h with ⟨entries, hlist, hfolder⟩
      dsimp only
      rw [Action.run_bind, Action.run_files]
      dsimp only
      rw [hlist]
      dsimp only
      rw [hfolder]

theorem publish_of_removeAll_error (c : Crate) (folder : String) {e : OsError}
    (hremove : w.files.removeAll out = .error e) :
    ((publish c folder out).run w).1 = some (.unclean out e) := by
  unfold publish
  rw [Action.run_bind, Action.run_change_error hremove]
  rfl

theorem publish_of_copyAll_error (c : Crate) (folder : String) {emptied copy : FileTree}
    {e : OsError} (hremove : w.files.removeAll out = .ok emptied)
    (hcopy : emptied.copyAll c.docDir out = (copy, some e)) :
    ((publish c folder out).run w).1 = some (.uncopied e) := by
  unfold publish
  rw [Action.run_bind, Action.run_change_ok hremove]
  dsimp only
  rw [Action.run_bind, Action.run_files]
  dsimp only
  rw [hcopy]
  rfl

/-- After the documentation was copied only the folder has to be renamed. -/
theorem publish_of_copyAll (c : Crate) (folder : String) {emptied copy : FileTree}
    (hremove : w.files.removeAll out = .ok emptied)
    (hcopy : emptied.copyAll c.docDir out = (copy, none)) :
    (publish c folder out).run w =
      if folder = c.name then (none, { w with files := copy })
      else
        match copy.move (join [out, folder]) (join [out, c.name]) with
        | .error e => (some (.unrenamed e), { w with files := copy })
        | .ok renamed => (none, { w with files := renamed }) := by
  unfold publish
  rw [Action.run_bind, Action.run_change_ok hremove]
  dsimp only
  rw [Action.run_bind, Action.run_files]
  dsimp only
  rw [hcopy, Action.run_bind, Action.run_setFiles]
  dsimp only
  by_cases hsame : folder = c.name
  · rw [if_pos (beq_iff_eq.2 hsame), if_pos hsame]
    rfl
  · rw [if_neg (by simpa using hsame), if_neg hsame, Action.run_bind]
    cases hmove : copy.move (join [out, folder]) (join [out, c.name]) with
    | error e =>
        rw [Action.run_change_error hmove]
        rfl
    | ok renamed =>
        rw [Action.run_change_ok hmove]
        rfl

/-- Publishing never blames a program, and when it succeeds all its steps have. -/
theorem publish_cases (c : Crate) (folder out : String) (w : Workspace) :
    (∀ f, ((publish c folder out).run w).1 ≠ some (.tool f)) ∧
      (((publish c folder out).run w).1 = none →
        ∃ emptied copy, w.files.removeAll out = .ok emptied ∧
        emptied.copyAll c.docDir out = (copy, none) ∧
        (folder = c.name ∧ ((publish c folder out).run w).2.files = copy ∨
          folder ≠ c.name ∧ copy.move (join [out, folder]) (join [out, c.name]) =
            .ok ((publish c folder out).run w).2.files)) := by
  cases hremove : w.files.removeAll out with
  | error e =>
      rw [publish_of_removeAll_error c folder hremove]
      exact ⟨fun f heq => (nomatch heq), fun heq => (nomatch heq)⟩
  | ok emptied =>
      rcases hcopy : emptied.copyAll c.docDir out with ⟨copy, e?⟩
      cases e? with
      | some e =>
          rw [publish_of_copyAll_error c folder hremove hcopy]
          exact ⟨fun f heq => (nomatch heq), fun heq => (nomatch heq)⟩
      | none =>
          rw [publish_of_copyAll c folder hremove hcopy]
          by_cases hsame : folder = c.name
          · rw [if_pos hsame]
            exact ⟨fun f heq => (nomatch heq), fun _ => ⟨_, _, rfl, hcopy, .inl ⟨hsame, rfl⟩⟩⟩
          · rw [if_neg hsame]
            cases hmove : copy.move (join [out, folder]) (join [out, c.name]) with
            | error e =>
                exact ⟨fun f heq => (nomatch heq), fun heq => (nomatch heq)⟩
            | ok renamed =>
                exact ⟨fun f heq => (nomatch heq), fun _ => ⟨_, _, rfl, hcopy, .inr ⟨hsame, hmove⟩⟩⟩

/-! ## What is published -/

/-- The place of a file, with the folder at its beginning renamed. -/
def renamed (folder name : String) : Place → Place
  | [] => []
  | first :: rest => (if first = folder then name else first) :: rest

@[simp] theorem renamed_self (name : String) (rel : Place) : renamed name name rel = rel := by
  cases rel with
  | nil =>
      rfl
  | cons first rest =>
      rw [renamed, ite_eq_right_iff.2 fun heq => heq.symm]

/-- What renaming makes a place of: of one in the folder, or of one that is in neither. -/
theorem renamed_eq_cons_iff {first : String} {rest rel : Place} :
    renamed folder name rel = first :: rest ↔
    first = name ∧ rel = folder :: rest ∨ first ≠ folder ∧ rel = first :: rest := by
  cases rel with
  | nil =>
      simp [renamed]
  | cons head tail =>
      rw [renamed, List.cons.injEq, List.cons.injEq, List.cons.injEq]
      by_cases hhead : head = folder
      · subst hhead
        rw [if_pos rfl]
        constructor
        · rintro ⟨rfl, rfl⟩
          exact .inl ⟨rfl, rfl, rfl⟩
        · rintro (⟨rfl, -, rfl⟩ | ⟨hne, rfl, -⟩)
          · exact ⟨rfl, rfl⟩
          · exact absurd rfl hne
      · rw [if_neg hhead]
        constructor
        · rintro ⟨rfl, rfl⟩
          exact .inr ⟨hhead, rfl, rfl⟩
        · rintro (⟨-, heq, -⟩ | ⟨-, rfl, rfl⟩)
          · exact absurd heq hhead
          · exact ⟨rfl, rfl⟩

theorem renamed_eq_nil_iff {rel : Place} : renamed folder name rel = [] ↔ rel = [] := by
  cases rel <;> simp [renamed]

/-- What was put under a place by renaming was in the folder, or in neither of the two. -/
theorem exists_renamed_iff {P : Place → Prop} {first : String} {rest : Place} :
    (∃ rel, P rel ∧ first :: rest = renamed folder name rel) ↔
      first = name ∧ P (folder :: rest) ∨ first ≠ folder ∧ P (first :: rest) := by
  constructor
  · rintro ⟨rel, hrel, heq⟩
    rcases renamed_eq_cons_iff.1 heq.symm with ⟨hfirst, rfl⟩ | ⟨hfirst, rfl⟩
    · exact .inl ⟨hfirst, hrel⟩
    · exact .inr ⟨hfirst, hrel⟩
  · rintro (⟨hfirst, hrel⟩ | ⟨hfirst, hrel⟩)
    · exact ⟨_, hrel, (renamed_eq_cons_iff.2 (.inl ⟨hfirst, rfl⟩)).symm⟩
    · exact ⟨_, hrel, (renamed_eq_cons_iff.2 (.inr ⟨hfirst, rfl⟩)).symm⟩

/-- What is at one place is what is at another, but for a folder that is renamed to a name that is
free, and no file elsewhere is touched.  Places above every tree are always there. -/
structure Mirrors (t t' : FileTree) (p o : Place) (folder name : String) : Prop where
  isFolder : t.node? (p ++ [folder]) = some .dir
  free : folder ≠ name → t.node? (p ++ [name]) = none
  nodes : ∀ rel n, Place.isBase (o ++ rel) = false → (t'.node? (o ++ rel) = some n ↔
    ∃ rel', t.node? (p ++ rel') = some n ∧ rel = renamed folder name rel')
  rest : ∀ q b, ¬ o <+: q → (t'.node? q = some (.file b) ↔ t.node? q = some (.file b))

variable {p o : Place}

theorem mirrors_of_replaced (h : t.Replaced t' p o) (hname : t.node? (p ++ [name]) = some .dir) :
    Mirrors t t' p o name name := by
  refine ⟨hname, fun hne => absurd rfl hne, fun rel n hbase => ?_, h.rest⟩
  rw [h.nodes rel n hbase]
  simp

/-- Renaming the copied folder makes a mirror of a copy. -/
theorem mirrors_of_transplant (ht : t.Grounded) (h : t.Replaced t' p o)
    (hfolder : t.node? (p ++ [folder]) = some .dir) (hne : folder ≠ name)
    (hplain : IsName folder.toList) (hplain' : IsName name.toList)
    (hfree : t'.node? (o ++ [name]) = none) :
    Mirrors t (t'.transplant (o ++ [folder]) (o ++ [name])) p o folder name := by
  have hbase : ∀ {name : String} {rest : Place}, IsName name.toList →
      Place.isBase (o ++ name :: rest) = false :=
    fun hname => Place.isBase_eq_false_of_isName (List.mem_append_right _ List.mem_cons_self) hname
  -- what had been at the new name in the documentation would have been copied to it
  have hunused : t.node? (p ++ [name]) = none := by
    refine Option.eq_none_iff_forall_ne_some.2 fun n hnode => ?_
    rw [(h.nodes [name] n (hbase hplain')).2 hnode] at hfree
    cases hfree
  refine ⟨hfolder, fun _ => hunused, fun rel n hdeep => ?_, fun q b hq => ?_⟩
  · cases rel with
    | nil =>
        have haway : ∀ name, ¬ o ++ [name] <+: o ++ [] := by
          intro name hpre
          rw [List.prefix_append_right_inj, List.prefix_nil] at hpre
          cases hpre
        rw [FileTree.node?_transplant_of_not_below (haway _) (haway _), h.nodes [] n hdeep]
        constructor
        · exact fun hnode => ⟨[], hnode, rfl⟩
        · rintro ⟨rel, hnode, heq⟩
          rwa [renamed_eq_nil_iff.1 heq.symm] at hnode
    | cons first rest =>
        -- below a name that is free there is nothing that could stay
        have hgone : t.node? (p ++ name :: rest) = none := by
          refine ht.node?_eq_none_of_prefix hunused ⟨rest, ?_⟩
          rw [List.append_assoc, List.singleton_append]
        rw [exists_renamed_iff, FileTree.node?_rename hne hplain hplain']
        split
        · next hfirst =>
            rw [h.nodes (folder :: rest) n (hbase hplain), hfirst, hgone]
            simp
        · next hother =>
            split
            · next hfirst =>
                simp [hfirst, hne]
            · next hneither =>
                rw [h.nodes (first :: rest) n hdeep]
                simp [hother, hneither]
  · have haway : ∀ name, ¬ o ++ [name] <+: q :=
      fun name hpre => hq ((List.prefix_append _ _).trans hpre)
    rw [FileTree.node?_transplant_of_not_below (haway _) (haway _), h.rest q b hq]

/-- Publishing that succeeds makes a mirror of the documentation, if the path leads to whatever is
at its place. -/
theorem mirrors_of_publish (hname : IsName c.name.toList) (ht : w.files.Grounded)
    (hout : ¬ Place.ofPath out <+: Place.ofPath c.docDir)
    (hin : ¬ Place.ofPath c.docDir <+: Place.ofPath out)
    (hleads : ∀ n, w.files.node? (Place.ofPath out) = some n → ∃ r, w.files.resolve out = .ok r)
    (hdir : w.files.node? (Place.ofPath c.docDir) = some .dir)
    (hfolder : w.files.node? (Place.ofPath c.docDir ++ [folder]) = some .dir)
    (hok : ((publish c folder out).run w).1 = none) :
    Mirrors w.files ((publish c folder out).run w).2.files (Place.ofPath c.docDir)
      (Place.ofPath out) folder
      c.name := by
  rcases (publish_cases c folder out w).2 hok with ⟨emptied, copy, hremove, hcopy, hend⟩
  -- the documentation is apart from what is emptied, so it is still there to be copied
  rw [FileTree.removeAll_eq_erase ht hleads hremove] at hcopy
  have hdir' : (w.files.erase (Place.ofPath out)).node? (Place.ofPath c.docDir) = some .dir := by
    rw [FileTree.sameOutside_erase w.files _ _ hout, hdir]
  have hreplaced : w.files.Replaced copy (Place.ofPath c.docDir) (Place.ofPath out) :=
    FileTree.replaced_of_copied hout hin
      (FileTree.copied_of_copyAll (ht.erase _) c.isClean_docDir c.isBase_docDir hdir' hcopy)
  rcases hend with ⟨rfl, hfiles⟩ | ⟨hne, hmove⟩
  · rw [hfiles]
    exact mirrors_of_replaced hreplaced hfolder
  · have hplain : IsName folder.toList :=
      ht.isName_of_below c.isBase_docDir
        ((ht.node?_eq_some_iff (c.isBase_docDir _)).1 hfolder) folder
        List.mem_cons_self
    have hplace : ∀ name, IsName name.toList → IsClean (join [out, name]) ∧
        Place.ofPath (join [out, name]) = Place.ofPath out ++ [name] := by
      intro name hname
      have hne : name ≠ "" := by
        rintro rfl
        exact hname.1 rfl
      exact ⟨isClean_join (List.mem_cons_of_mem _ List.mem_cons_self) hne,
        Place.ofPath_join out (by simpa using hname)⟩
    rcases hplace folder hplain with ⟨hold, hplaceOld⟩
    rcases hplace c.name hname with ⟨hnew, hplaceNew⟩
    have hbase : (Place.ofPath out ++ [folder]).isBase = false :=
      Place.isBase_eq_false_of_isName (List.mem_append_right _ List.mem_cons_self) hplain
    have hdirOld : copy.node? (Place.ofPath (join [out, folder])) = some .dir := by
      rw [hplaceOld]
      exact (hreplaced.nodes [folder] .dir hbase).2 hfolder
    have hmoved :=
      FileTree.move_dir hold hnew (by simpa [hplaceOld, hplaceNew] using hne) hdirOld hmove
    rw [hplaceOld, hplaceNew] at hmoved
    rw [hmoved.2]
    exact mirrors_of_transplant ht hreplaced hfolder hne hplain hname hmoved.1

/-- Building documentation into a directory that is apart from it.  When it succeeds and the given
path led to whatever was in the directory, what is there is the documentation, with the crate's
folder under the crate's name, and no other file has changed.  It blames cargo just if there is
nothing to be published, and then the directory is as it was before. -/
theorem buildHtml_mirrors (hname : IsName c.name.toList) (ht : (documentation c w).1.Grounded)
    (hcargo : ∀ q, Place.ofPath out <+: q → (documentation c w).1.node? q = w.files.node? q)
    (hout : ¬ Place.ofPath out <+: Place.ofPath c.docDir)
    (hin : ¬ Place.ofPath c.docDir <+: Place.ofPath out) :
    ((∀ n, (documentation c w).1.node? (Place.ofPath out) = some n →
        ∃ r, (documentation c w).1.resolve out = .ok r) →
      ((buildHtml c out).run w).1 = none → ∃ folder, (folder = c.name ∨ folder = c.graphName) ∧
        Mirrors (documentation c w).1 ((buildHtml c out).run w).2.files (Place.ofPath c.docDir)
          (Place.ofPath out) folder c.name) ∧
    ((∃ f, ((buildHtml c out).run w).1 = some (.tool f)) ↔ Undocumented c w) ∧
    ((∃ f, ((buildHtml c out).run w).1 = some (.tool f)) →
      ∀ q, Place.ofPath out <+: q →
      ((buildHtml c out).run w).2.files.node? q = w.files.node? q) := by
  rw [← chosenFolder?_eq_none_iff ht]
  cases hchosen : chosenFolder? c w with
  | none =>
      rcases buildHtml_of_none out hchosen with ⟨⟨f, hfailed⟩, hfiles⟩
      refine ⟨fun _ hok => ?_, iff_of_true ⟨f, hfailed⟩ rfl, fun _ q hq => ?_⟩
      · rw [hfailed] at hok
        cases hok
      · rw [hfiles, hcargo q hq]
  | some folder =>
      rcases chosenFolder?_spec ht hchosen with ⟨hdir, hfolder, hnamed⟩
      rw [buildHtml_of_some hchosen]
      have hblames := (publish_cases c folder out
        { w with files := (documentation c w).1, calls := w.calls ++ [documentationCall c] }).1
      refine ⟨fun hleads hok => ⟨folder, hnamed, ?_⟩, ?_, ?_⟩
      · exact mirrors_of_publish hname ht hout hin hleads hdir hfolder hok
      · exact iff_of_false (fun ⟨f, hf⟩ => hblames f hf) (fun heq => (nomatch heq))
      · exact fun ⟨f, hf⟩ => absurd hf (hblames f)

/-- A crate whose graphs have another name. -/
def engine : Crate where
  dir := "engine"
  name := "engine"
  graphName := "pai_engine"

/-- Documentation that cargo finds up to date, and a directory with an old page. -/
def documented : Workspace where
  files :=
    { entries :=
        [(["engine"], .dir), (["engine", "target"], .dir), (["engine", "target", "doc"], .dir),
          (["engine", "target", "doc", "pai_engine"], .dir),
          (["engine", "target", "doc", "pai_engine", "index.html"], .file (.ofText "new")),
          (["html"], .dir), (["html", "old.html"], .file (.ofText "old"))] }
  tools := { run := fun _ files => (files, {}), isInstalled := fun _ => true }
  formats := .standard
  web _ := { status := 404, body := [] }
  scratch := "/tmp"

/-- The documentation alone. -/
def pages : List (Place × FileNode) :=
  [([], .dir), (["pai_engine"], .dir), (["pai_engine", "index.html"], .file (.ofText "new"))]

theorem grounded_documented : (documentation engine documented).1.Grounded := by
  decide +kernel

theorem ofPath_docDir_engine : Place.ofPath engine.docDir = ["engine", "target", "doc"] := by
  decide +kernel

theorem chosenFolder?_documented : chosenFolder? engine documented = some "pai_engine" := by
  have hpublished : chosenFolder? engine documented ≠ none := by
    rw [Ne, chosenFolder?_eq_none_iff grounded_documented, Undocumented, ofPath_docDir_engine]
    rintro (hfault | hdir | hnone)
    · exact hfault rfl
    · exact hdir (by decide +kernel)
    · exact (hnone "pai_engine" (by decide +kernel)).2 rfl
  rcases Option.ne_none_iff_exists'.1 hpublished with ⟨folder, hchosen⟩
  rcases chosenFolder?_spec grounded_documented hchosen with ⟨-, hfolder, rfl | rfl⟩
  · rw [ofPath_docDir_engine] at hfolder
    exact absurd hfolder (by decide +kernel)
  · exact hchosen

/-- Documentation that is still there after removing is published if it can be copied and its folder
moved. -/
theorem buildHtml_documented {emptied copy : FileTree}
    (hremove : documented.files.removeAll out = .ok emptied)
    (hopens : emptied.Opens ["engine", "target", "doc"])
    (hdir : emptied.node? ["engine", "target", "doc"] = some .dir)
    (hpages : emptied.contents ["engine", "target", "doc"] = pages)
    (hcopy : emptied.copyEntries (Place.ofPath out) pages = (copy, none))
    (hmove : (copy.move (join [out, "pai_engine"]) (join [out, engine.name])).isOk = true) :
    ((buildHtml engine out).run documented).1 = none ∧
      copy.move (join [out, "pai_engine"]) (join [out, engine.name]) =
        .ok ((buildHtml engine out).run documented).2.files := by
  rw [← ofPath_docDir_engine] at hopens hdir hpages
  have hcopied : emptied.copyAll engine.docDir out = (copy, none) := by
    rw [FileTree.copyAll_eq engine.isClean_docDir hopens hdir, hpages, hcopy]
  have hrun :=
    publish_of_copyAll (w := { documented with calls := [documentationCall engine] }) engine
      "pai_engine"
    hremove hcopied
  rw [if_neg (by decide)] at hrun
  have hbuild : (buildHtml engine out).run documented = (publish engine "pai_engine" out).run
      { documented with calls := [documentationCall engine] } :=
    buildHtml_of_some chosenFolder?_documented
  rw [hbuild, hrun]
  cases hmoved : copy.move (join [out, "pai_engine"]) (join [out, engine.name]) with
  | error e =>
      rw [hmoved] at hmove
      cases hmove
  | ok renamed =>
      exact ⟨rfl, rfl⟩

/-- In a mirror of the documentation there is no old page. -/
theorem Mirrors.old_page_gone
    (h : Mirrors (documentation engine documented).1 t (Place.ofPath engine.docDir) o folder
      engine.name) :
    t.node? (o ++ ["old.html"]) = none := by
  have hname : IsName "old.html".toList := by
    decide
  have hbase : (o ++ ["old.html"]).isBase = false :=
    Place.isBase_eq_false_of_isName (List.mem_append_right _ List.mem_cons_self) hname
  have hnone : (documentation engine documented).1.node?
      (["engine", "target", "doc"] ++ ["old.html"]) = none := by
    decide +kernel
  refine Option.eq_none_iff_forall_ne_some.2 fun n hold => ?_
  rcases exists_renamed_iff.1 ((h.nodes ["old.html"] n hbase).1 hold) with ⟨hsame, -⟩ | ⟨-, hpage⟩
  · exact absurd hsame (by decide)
  · rw [ofPath_docDir_engine, hnone] at hpage
    cases hpage

theorem buildHtml_mirrors_renamed :
    ((buildHtml engine "html").run documented).1 = none ∧
      ((buildHtml engine "html").run documented).2.files.node? ["html", "engine", "index.html"] =
        some (.file (.ofText "new")) ∧
      ((buildHtml engine "html").run documented).2.files.node? ["html", "old.html"] = none := by
  have hok : ((buildHtml engine "html").run documented).1 = none := by
    have hremove : documented.files.removeAll "html" = .ok (documented.files.erase ["html"]) := by
      decide +kernel
    have hpages : (documented.files.erase ["html"]).contents ["engine", "target", "doc"] =
        pages := by
      rw [FileTree.contents, FileTree.below_eq_of_sorted rfl (by decide)]
      rfl
    have hcopy : ((documented.files.erase ["html"]).copyEntries (Place.ofPath "html") pages).2 =
        none := by
      decide +kernel
    refine (buildHtml_documented hremove (FileTree.opens_iff_inits.2 ?_) ?_ hpages
      (Prod.ext rfl hcopy) ?_).1
    · decide +kernel
    · decide +kernel
    · decide +kernel
  have hclean : IsClean "html" := show clean "html" = "html" by decide +kernel
  have hplace : Place.ofPath "html" = ["html"] := by
    decide +kernel
  rcases (buildHtml_mirrors (by decide) grounded_documented (fun _ _ => rfl) (by decide +kernel)
    (by decide +kernel)).1 (grounded_documented.leads_of_isClean hclean) hok with
      ⟨folder, hfolder, hmirrors⟩
  rw [hplace] at hmirrors
  refine ⟨hok, ?_, hmirrors.old_page_gone⟩
  refine (hmirrors.nodes ["engine", "index.html"] _
    (by decide)).2 ⟨["pai_engine", "index.html"], ?_, ?_⟩
  · rw [ofPath_docDir_engine]
    decide +kernel
  · rcases hfolder with rfl | rfl
    · have hnone := hmirrors.isFolder
      rw [ofPath_docDir_engine] at hnone
      exact absurd hnone (by decide +kernel)
    · rfl

/-- A path through a directory that is not there is not followed when the old pages are to be
removed, but the new ones are put where it leads, so the old pages stay. -/
theorem old_page_kept :
    IsName engine.name.toList ∧ (documentation engine documented).1.Grounded ∧
      (∀ q, (documentation engine documented).1.node? q = documented.files.node? q) ∧
      ¬ Place.ofPath "public/../html" <+: Place.ofPath engine.docDir ∧
      ¬ Place.ofPath engine.docDir <+: Place.ofPath "public/../html" ∧
      ((buildHtml engine "public/../html").run documented).1 = none ∧
      ¬ ∃ folder, Mirrors (documentation engine documented).1
        ((buildHtml engine "public/../html").run documented).2.files (Place.ofPath engine.docDir)
        (Place.ofPath "public/../html") folder engine.name := by
  have hremove : documented.files.removeAll "public/../html" = .ok documented.files := by
    decide +kernel
  have hpages : documented.files.contents ["engine", "target", "doc"] = pages := by
    rw [FileTree.contents, FileTree.below_eq_of_sorted rfl (by decide)]
    rfl
  have hplace : Place.ofPath "public/../html" = ["html"] := by
    decide +kernel
  have hopens : documented.files.Opens ["engine", "target", "doc"] :=
    FileTree.opens_iff_inits.2 (by decide +kernel)
  have hcopy : (documented.files.copyEntries (Place.ofPath "public/../html") pages).2 = none := by
    decide +kernel
  rcases buildHtml_documented hremove hopens (by decide +kernel) hpages (Prod.ext rfl hcopy)
    (by decide +kernel) with
    ⟨hok, hmove⟩
  refine ⟨by decide, grounded_documented, fun _ => rfl, by decide +kernel, by decide +kernel, hok,
    ?_⟩
  rintro ⟨folder, hmirrors⟩
  have hclean : ∀ name, IsClean (join ["public/../html", name]) := fun name =>
    isClean_join List.mem_cons_self (by decide)
  have hold : ¬ Place.ofPath (join ["public/../html", "pai_engine"]) <+: ["html", "old.html"] := by
    decide +kernel
  have hnew : ¬ Place.ofPath (join ["public/../html", engine.name]) <+: ["html", "old.html"] := by
    decide +kernel
  have hstale : (documented.files.copyEntries (Place.ofPath "public/../html") pages).1.node?
    ["html", "old.html"] =
      some (.file (.ofText "old")) := by
    decide +kernel
  have hkept := (FileTree.node?_move (hclean _) (hclean _) hmove hold hnew).trans hstale
  rw [hplace] at hmirrors
  rw [← List.singleton_append, hmirrors.old_page_gone] at hkept
  cases hkept

end Tool
end ApiPages

import ApiPages.Proofs.Files.Frames
import ApiPages.Proofs.Files.Listing
import Mathlib.Data.List.Infix

/-!
# Copies of directories

A directory is copied entry by entry, and a copy that succeeds puts every entry at its place below
the target.

* `FileTree.Grounded` is a tree in which everything lies in directories and has a name;
* `FileTree.Gains` is the step: what copying one entry does to the nodes;
* `FileTree.GainsAll` is the run over all entries, and `FileTree.copied_of_copyAll` puts it together
  for a directory;
* `FileTree.replaced_of_copied` is about a target that was emptied before;
* `FileTree.removeAll_eq_erase` says when removing empties the place that a path names;
* `FileTree.move_dir` says when a directory can be moved, and `FileTree.node?_rename` what is where
  after it was renamed.
-/

namespace ApiPages

open SlashPath

/-! ## Places of paths -/

namespace Place

theorem path_rooted (rest : Place) : Place.path ("/" :: rest) = "/" ++ Text.joined "/" rest :=
  rfl

theorem path_of_names {p : Place} (hne : p ≠ []) (h : ∀ name ∈ p, name ≠ "/") :
    p.path = Text.joined "/" p := by
  unfold Place.path
  split
  · exact absurd rfl hne
  · exact absurd rfl (h "/" List.mem_cons_self)
  · rfl

/-- The path of a place is the cleaned form of all paths that name it. -/
theorem path_ofPath (s : String) : (ofPath s).path = clean s := by
  have hmem : ∀ e ∈ elements s, '/' ∉ e := fun e he => (mem_elements he).2.2
  have hback : ((elements s).map String.ofList).map String.toList = elements s := by
    rw [List.map_map]
    exact (List.map_congr_left fun e _ => String.toList_ofList).trans (List.map_id _)
  refine String.toList_injective ?_
  cases hrooted : isRooted s with
  | true =>
      have hplace : ofPath s = "/" :: (elements s).map String.ofList := by
        rw [ofPath, hrooted]
        rfl
      have hspell : clean s = String.ofList (spell true (elements s)) := by
        rw [clean_eq_spell, hrooted, if_neg (fun h => Bool.noConfusion h.1)]
      rw [hplace, path_rooted, String.toList_append, toList_joined, hback, hspell,
        String.toList_ofList, spell]
      simp
  | false =>
      have hplace : ofPath s = (elements s).map String.ofList := by
        rw [ofPath, hrooted]
        rfl
      by_cases hnone : elements s = []
      · rw [hplace, clean_eq_spell, hrooted, hnone]
        rfl
      · have hspell : clean s = String.ofList (spell false (elements s)) := by
          rw [clean_eq_spell, hrooted, if_neg (fun h => hnone h.2)]
        have hslash : ∀ name ∈ (elements s).map String.ofList, name ≠ "/" := by
          intro name hname heq
          rcases List.mem_map.1 hname with ⟨e, he, rfl⟩
          have hchars : e = ['/'] := by simpa using congrArg String.toList heq
          exact hmem e he (hchars ▸ List.mem_cons_self)
        rw [hplace, path_of_names (by simpa using hnone) hslash, toList_joined, hback, hspell,
          String.toList_ofList, spell]
        simp

/-- A place that is read off its own path again. -/
def IsNamed (p : Place) : Prop :=
  IsClean p.path ∧ ofPath p.path = p

theorem isNamed_ofPath (s : String) : IsNamed (ofPath s) := by
  rw [IsNamed, path_ofPath]
  exact ⟨isClean_clean s, ofPath_clean s⟩

theorem isNamed_append (s : String) {names : Place} (h : ∀ name ∈ names, IsName name.toList) :
    IsNamed (ofPath s ++ names) := by
  rw [← ofPath_join s h]
  exact isNamed_ofPath _

end Place

namespace FileTree

variable {t t' : FileTree} {p q o : Place} {path : String} {n : FileNode} {b : Bytes}

/-! ## Trees in which everything lies in directories -/

/-- Each place has one entry with a name at its end, and lies in directories. -/
structure Grounded (t : FileTree) : Prop extends Proper t where
  opens : ∀ e ∈ t.entries, t.Opens e.1

theorem opens_iff_inits : t.Opens p ↔ ∀ q ∈ p.inits, q ≠ p → t.node? q = some .dir := by
  constructor
  · intro h q hq hne
    rcases (List.mem_inits q p).1 hq with ⟨rel, rfl⟩
    cases rel with
    | nil =>
        exact absurd (List.append_nil q).symm hne
    | cons name rel =>
        refine h q name ⟨rel, ?_⟩
        rw [List.append_assoc, List.singleton_append]
  · intro h q name hq
    exact h q ((List.mem_inits q p).2 (prefix_of_prefix_concat hq)) (ne_of_prefix_concat hq)

instance (t : FileTree) : Decidable t.Grounded :=
  decidable_of_iff (t.Proper ∧ ∀ e ∈ t.entries, ∀ q ∈ e.1.inits, q ≠ e.1 → t.node? q = some .dir)
    ⟨fun h => ⟨h.1, fun e he => opens_iff_inits.2 (h.2 e he)⟩,
      fun h => ⟨h.toProper, fun e he => opens_iff_inits.1 (h.opens e he)⟩⟩

theorem Proper.lookup_eq_some_iff (h : t.Proper) :
    t.entries.lookup p = some n ↔ (p, n) ∈ t.entries := by
  rw [List.lookup_eq_some_iff]
  constructor
  · rintro ⟨before, after, hentries, -⟩
    rw [hentries]
    exact List.mem_append_right _ List.mem_cons_self
  · intro hmem
    rcases List.mem_iff_append.1 hmem with ⟨before, after, hentries⟩
    refine ⟨before, after, hentries, fun e he => ?_⟩
    have hnodup := h.nodup
    rw [hentries, List.map_append, List.map_cons, List.nodup_append] at hnodup
    exact bne_iff_ne.2 fun heq =>
      hnodup.2.2 _ (List.mem_map_of_mem he) _ List.mem_cons_self heq.symm

theorem Proper.node?_eq_some_iff (h : t.Proper) (hbase : p.isBase = false) :
    t.node? p = some n ↔ (p, n) ∈ t.entries := by
  rw [node?, hbase, if_neg Bool.false_ne_true, h.lookup_eq_some_iff]

/-- Places above every tree lie in others of their kind. -/
theorem opens_of_isBase (t : FileTree) (h : p.isBase = true) : t.Opens p := by
  intro q name hq
  refine node?_of_isBase ?_
  rw [Place.isBase, Bool.or_eq_true] at h ⊢
  rcases h with hroot | hup
  · have hlength := hq.length_le
    rw [beq_iff_eq.1 hroot, List.length_append, List.length_singleton, List.length_singleton]
      at hlength
    have hnil : q = [] := List.length_eq_zero_iff.1 (by omega)
    rw [hnil]
    exact .inr rfl
  · rw [List.all_eq_true] at hup ⊢
    exact .inr fun x hx => hup x ((prefix_of_prefix_concat hq).subset hx)

theorem Grounded.opens_of_node? (h : t.Grounded) (hnode : t.node? p = some n) : t.Opens p := by
  cases hbase : p.isBase with
  | false =>
      exact h.opens _ ((h.node?_eq_some_iff hbase).1 hnode)
  | true =>
      exact opens_of_isBase t hbase

theorem mem_entries_erase {e : Place × FileNode} :
    e ∈ (t.erase p).entries ↔ e ∈ t.entries ∧ ¬ p <+: e.1 := by
  rw [erase, List.mem_filter, Bool.not_eq_true', Bool.eq_false_iff, Ne, isWithin,
    List.isPrefixOf_iff_prefix]

theorem Grounded.erase (h : t.Grounded) (p : Place) : (t.erase p).Grounded where
  nodup := h.nodup.sublist (List.filter_sublist.map _)
  names e he := h.names e (mem_entries_erase.1 he).1
  opens e he q name hq := by
    rcases mem_entries_erase.1 he with ⟨hmem, hout⟩
    have hway : ¬ p <+: q := fun hp => hout (hp.trans (prefix_of_prefix_concat hq))
    rw [(sameOutside_erase t p) q hway]
    exact h.opens e hmem q name hq

/-- Below a place at which nothing is there is nothing. -/
theorem Grounded.node?_eq_none_of_prefix (h : t.Grounded) (hnone : t.node? p = none)
    (hq : p <+: q) :
    t.node? q = none := by
  refine Option.eq_none_iff_forall_ne_some.2 fun n hnode => ?_
  have hne : q ≠ p := by
    rintro rfl
    rw [hnone] at hnode
    cases hnode
  exact (h.opens_of_node? hnode).not_below (by rw [hnone]; exact fun heq => (nomatch heq)) hne hq

/-- Erasing a place at which nothing is changes nothing. -/
theorem Grounded.erase_eq_self (h : t.Grounded) (hnone : t.node? p = none) : t.erase p = t := by
  have hkept : t.entries.filter (fun e => !isWithin e.1 p) = t.entries := by
    refine List.filter_eq_self.2 fun e he => ?_
    rw [Bool.not_eq_true', Bool.eq_false_iff, Ne, isWithin, List.isPrefixOf_iff_prefix]
    intro hbelow
    have hgone := h.node?_eq_none_of_prefix hnone hbelow
    have hbase : Place.isBase e.1 = false :=
      isBase_eq_false (by rw [hgone]; exact fun heq => (nomatch heq))
    rw [(h.node?_eq_some_iff hbase).2 he] at hgone
    cases hgone
  rw [FileTree.erase, hkept]

/-- What lies below a place that is no base has names on the way to it. -/
theorem Grounded.isName_of_below (h : t.Grounded) {rel : Place}
    (hdeep : ∀ rel, (p ++ rel).isBase = false) (hmem : (p ++ rel, n) ∈ t.entries) :
    ∀ name ∈ rel, IsName name.toList := by
  intro name hname
  rcases List.mem_iff_append.1 hname with ⟨before, after, rfl⟩
  have hplace : p ++ (before ++ name :: after) = p ++ (before ++ [name]) ++ after := by
    simp
  -- the place that the name ends is the entry's own or that of a directory on the way to it
  have hentry : ∃ n', (p ++ (before ++ [name]), n') ∈ t.entries := by
    cases after with
    | nil =>
        exact ⟨n, hmem⟩
    | cons next after =>
        have hway : p ++ (before ++ [name]) ++ [next] <+:
            p ++ (before ++ name :: next :: after) := by
          rw [hplace]
          exact ⟨after, by simp⟩
        exact ⟨.dir, (h.node?_eq_some_iff (hdeep _)).1 (h.opens _ hmem _ next hway)⟩
  rcases hentry with ⟨n', hentry⟩
  rcases h.names _ hentry with ⟨last, hlast, hplain⟩
  have hsame : last = name := by
    simpa using hlast.symm
  rwa [hsame] at hplain

/-! ## Copying one entry -/

/-- A tree with a node put at a place: every other file is where it was, no directory is gone, and
new ones are on the way to the place. -/
structure Gains (t t' : FileTree) (p : Place) (n : FileNode) : Prop where
  node : t'.node? p = some n
  files : ∀ q b, q ≠ p → (t'.node? q = some (.file b) ↔ t.node? q = some (.file b))
  dirs : ∀ q, t.node? q = some .dir → t'.node? q = some .dir
  made : ∀ q, t'.node? q = some .dir → t.node? q = some .dir ∨ q <+: p

theorem gains_of_copyEntry (hp : Place.IsNamed p) (h : t.copyEntry p n = .ok t') :
    Gains t t' p n := by
  cases n with
  | dir =>
      have hmake : t.makeDirs p.path = .ok t' := by
        rw [makeDirs, hp.2]
        exact h
      rcases makeDirs_spec hmake with ⟨hfree, hdirs, hrest⟩
      rw [hp.2] at hfree hdirs hrest
      refine ⟨hdirs p List.prefix_rfl, fun q b _ => ?_, fun q hdir => ?_, fun q hdir => ?_⟩
      · by_cases hq : q <+: p
        · rw [hdirs q hq]
          exact iff_of_false (fun heq => (nomatch heq)) (hfree q hq b)
        · rw [hrest q hq]
      · by_cases hq : q <+: p
        · exact hdirs q hq
        · rwa [hrest q hq]
      · by_cases hq : q <+: p
        · exact .inr hq
        · rw [hrest q hq] at hdir
          exact .inl hdir
  | file b =>
      rcases (write_eq_ok_iff hp.1).1 h with ⟨-, hfree, rfl⟩
      rw [hp.2] at hfree ⊢
      refine ⟨node?_set_self (isBase_eq_false hfree), fun q b' hq => ?_, fun q hdir => ?_,
        fun q hdir => ?_⟩
      · rw [node?_set_of_ne hq]
      · have hne : q ≠ p := by
          rintro rfl
          exact hfree hdir
        rwa [node?_set_of_ne hne]
      · by_cases hq : q = p
        · exact .inr (hq ▸ List.prefix_rfl)
        · rw [node?_set_of_ne hq] at hdir
          exact .inl hdir

/-! ## Copying all entries -/

/-- A tree with all entries put at their places below a target: no other file has come into being or
is gone, and every new directory is on the way to one of the places. -/
structure GainsAll (t t' : FileTree) (o : Place) (es : List (Place × FileNode)) : Prop where
  nodes : ∀ e ∈ es, t'.node? (o ++ e.1) = some e.2
  files : ∀ q b, (∀ e ∈ es, q ≠ o ++ e.1) →
    (t'.node? q = some (.file b) ↔ t.node? q = some (.file b))
  dirs : ∀ q, t.node? q = some .dir → t'.node? q = some .dir
  made : ∀ q, t'.node? q = some .dir → t.node? q = some .dir ∨ ∃ e ∈ es, q <+: o ++ e.1

theorem GainsAll.cons {e : Place × FileNode} {es : List (Place × FileNode)} {t₁ : FileTree}
    (hfirst : Gains t t₁ (o ++ e.1) e.2) (hrest : GainsAll t₁ t' o es)
    (hnew : e.1 ∉ es.map Prod.fst) :
    GainsAll t t' o (e :: es) := by
  -- no later entry has the place of the first one
  have haway : ∀ e' ∈ es, o ++ e.1 ≠ o ++ e'.1 := fun e' he' heq =>
    hnew (List.mem_map.2 ⟨e', he', (List.append_cancel_left heq).symm⟩)
  refine ⟨List.forall_mem_cons.2 ⟨?_, hrest.nodes⟩, fun q b hq => ?_, fun q hdir => ?_,
    fun q hdir => ?_⟩
  · have hnode := hfirst.node
    cases hn : e.2 with
    | dir =>
        rw [hn] at hnode
        exact hrest.dirs _ hnode
    | file b =>
        rw [hn] at hnode
        exact (hrest.files _ b haway).2 hnode
  · rcases List.forall_mem_cons.1 hq with ⟨hne, hothers⟩
    rw [hrest.files q b hothers, hfirst.files q b hne]
  · exact hrest.dirs q (hfirst.dirs q hdir)
  · rcases hrest.made q hdir with hbefore | ⟨e', he', hq⟩
    · exact (hfirst.made q hbefore).imp id fun hq => ⟨e, List.mem_cons_self, hq⟩
    · exact .inr ⟨e', List.mem_cons_of_mem _ he', hq⟩

theorem gains_of_copyEntries {es : List (Place × FileNode)}
    (hnames : ∀ e ∈ es, Place.IsNamed (o ++ e.1)) (hnodup : (es.map Prod.fst).Nodup)
    (h : t.copyEntries o es = (t', none)) : GainsAll t t' o es := by
  induction es generalizing t with
  | nil =>
      cases h
      exact ⟨fun _ he => (nomatch he), fun _ _ _ => Iff.rfl, fun _ hdir => hdir, fun _ hdir =>
        .inl hdir⟩
  | cons e rest ih =>
      -- the first entry that cannot be copied would have ended the run with an error
      rw [copyEntries] at h
      cases hcopy : t.copyEntry (o ++ e.1) e.2 with
      | error e =>
          rw [hcopy] at h
          cases h
      | ok t₁ =>
          rw [hcopy] at h
          rw [List.map_cons, List.nodup_cons] at hnodup
          rcases List.forall_mem_cons.1 hnames with ⟨hname, hothers⟩
          exact (ih hothers hnodup.2 h).cons (gains_of_copyEntry hname hcopy) hnodup.1

/-! ## Copying a directory -/

/-- A tree with a copy of one place at another: nothing is missing there, everything there was
copied or was there before, and the files elsewhere are the same. -/
structure Copied (t t' : FileTree) (p o : Place) : Prop where
  nodes : ∀ rel n, t.node? (p ++ rel) = some n → t'.node? (o ++ rel) = some n
  found : ∀ rel n, t'.node? (o ++ rel) = some n →
    t.node? (p ++ rel) = some n ∨ t.node? (o ++ rel) = some n
  rest : ∀ q b, ¬ o <+: q → (t'.node? q = some (.file b) ↔ t.node? q = some (.file b))

/-- What is copied of a directory: itself and then everything below it. -/
def contents (t : FileTree) (p : Place) : List (Place × FileNode) :=
  ([], .dir) :: (t.below p).filter (·.1 != [])

theorem mem_contents_iff {rel : Place} (ht : t.Proper) (hdeep : ∀ rel, (p ++ rel).isBase = false)
    (hdir : t.node? p = some .dir) : (rel, n) ∈ t.contents p ↔ t.node? (p ++ rel) = some n := by
  rw [contents, List.mem_cons, List.mem_filter, mem_below_iff, ht.node?_eq_some_iff (hdeep rel)]
  cases rel with
  | nil =>
      rw [List.append_nil, ← ht.node?_eq_some_iff (by simpa using hdeep []), hdir]
      simp [eq_comm]
  | cons name rel =>
      simp

theorem nodup_contents (ht : t.Proper) (p : Place) : ((t.contents p).map Prod.fst).Nodup := by
  have hbelow : ((t.below p).map Prod.fst).Nodup :=
    List.pairwise_map.2 ((ht.pairwise_below p).imp fun h => h.2)
  rw [contents, List.map_cons, List.nodup_cons]
  refine ⟨?_, hbelow.sublist (List.filter_sublist.map _)⟩
  simp

theorem copyAll_eq {source : String} (hclean : IsClean source)
    (hopens : t.Opens (Place.ofPath source)) (hdir : t.node? (Place.ofPath source) = some .dir)
    (target : String) :
    t.copyAll source target = t.copyEntries (Place.ofPath target)
      (t.contents (Place.ofPath source)) := by
  unfold copyAll
  rw [(resolve_eq_ok_iff hclean).2 ⟨rfl, hopens⟩, (look_eq_ok_iff hclean).2 ⟨hopens, hdir⟩]
  rfl

theorem copied_of_copyAll {source target : String} (ht : t.Grounded) (hclean : IsClean source)
    (hdeep : ∀ rel, (Place.ofPath source ++ rel).isBase = false)
    (hdir : t.node? (Place.ofPath source) = some .dir) (h : t.copyAll source target = (t', none)) :
    Copied t t' (Place.ofPath source) (Place.ofPath target) := by
  have hmem : ∀ rel n, (rel, n) ∈ t.contents (Place.ofPath source) ↔
      t.node? (Place.ofPath source ++ rel) = some n :=
        fun rel n => mem_contents_iff ht.toProper hdeep hdir
  have hnames : ∀ e ∈ t.contents (Place.ofPath source),
      Place.IsNamed (Place.ofPath target ++ e.1) := by
    rintro ⟨rel, n⟩ he
    have hentry := (ht.node?_eq_some_iff (hdeep rel)).1 ((hmem rel n).1 he)
    exact Place.isNamed_append target (ht.isName_of_below hdeep hentry)
  rw [copyAll_eq hclean (ht.opens_of_node? hdir) hdir] at h
  have hgains := gains_of_copyEntries hnames (nodup_contents ht.toProper _) h
  have hnodes : ∀ rel n, t.node? (Place.ofPath source ++ rel) = some n →
      t'.node? (Place.ofPath target ++ rel) = some n := fun rel n hnode =>
    hgains.nodes (rel, n) ((hmem rel n).2 hnode)
  refine ⟨hnodes, fun rel n hfound => ?_, fun q b hq => hgains.files q b fun e _ heq => hq ?_⟩
  · by_cases hcopied : ∃ n', t.node? (Place.ofPath source ++ rel) = some n'
    · rcases hcopied with ⟨n', hnode⟩
      rw [hnodes rel n' hnode] at hfound
      rw [← Option.some.inj hfound]
      exact .inl hnode
    · -- what is not copied is no file that was made and, since all on the way is copied, no
      -- directory
      refine .inr ?_
      have haway : ∀ e ∈ t.contents (Place.ofPath source), ¬ rel <+: e.1 := by
        rintro ⟨rel', n'⟩ he hrel
        have hopens := ht.opens_of_node? ((hmem rel' n').1 he)
        rcases hrel with ⟨after, rfl⟩
        cases after with
        | nil =>
            rw [List.append_nil] at he
            exact hcopied ⟨n', (hmem rel n').1 he⟩
        | cons name after =>
            exact hcopied ⟨.dir, hopens _ name ⟨after, by simp⟩⟩
      cases n with
      | file b =>
          refine (hgains.files _ b fun e he heq => haway e he ?_).1 hfound
          rw [List.append_cancel_left heq]
      | dir =>
          rcases hgains.made _ hfound with hbefore | ⟨e, he, hway⟩
          · exact hbefore
          · exact absurd ((List.prefix_append_right_inj _).1 hway) (haway e he)
  · rw [heq]
    exact List.prefix_append _ _

/-- A tree with a copy of one place at another, where nothing else is. -/
structure Replaced (t t' : FileTree) (p o : Place) : Prop where
  nodes : ∀ rel n, Place.isBase (o ++ rel) = false →
    (t'.node? (o ++ rel) = some n ↔ t.node? (p ++ rel) = some n)
  rest : ∀ q b, ¬ o <+: q → (t'.node? q = some (.file b) ↔ t.node? q = some (.file b))

/-- What is copied to a place that was emptied is all that is there. -/
theorem replaced_of_copied (hout : ¬ o <+: p) (hin : ¬ p <+: o) (h : Copied (t.erase o) t' p o) :
    Replaced t t' p o := by
  have hsource : ∀ rel, (t.erase o).node? (p ++ rel) = t.node? (p ++ rel) := by
    intro rel
    refine sameOutside_erase t o _ fun hrel => ?_
    exact (List.prefix_or_prefix_of_prefix hrel (List.prefix_append p rel)).elim hout hin
  refine ⟨fun rel n hbase =>
    ⟨fun hfound => ?_, fun hnode => h.nodes rel n ((hsource rel).trans hnode)⟩, ?_⟩
  · rcases h.found rel n hfound with hcopied | hstale
    · rwa [hsource] at hcopied
    · -- nothing is left in a place that was emptied
      rw [node?_erase, hbase, if_neg Bool.false_ne_true, if_pos (List.prefix_append _ _)] at hstale
      cases hstale
  · intro q b hq
    rw [h.rest q b hq, sameOutside_erase t o q hq]

/-! ## Removing what a path leads to -/

/-- Removing empties the place that a path names, if the path leads there or nothing is there. -/
theorem removeAll_eq_erase (ht : t.Grounded)
    (hleads : ∀ n, t.node? (Place.ofPath path) = some n → ∃ r, t.resolve path = .ok r)
    (h : t.removeAll path = .ok t') : t' = t.erase (Place.ofPath path) := by
  have hmissing : (∀ r, t.resolve path ≠ .ok r) → t.erase (Place.ofPath path) = t := by
    intro hnone
    refine ht.erase_eq_self (Option.eq_none_iff_forall_ne_some.2 fun n hnode => ?_)
    rcases hleads n hnode with ⟨r, hr⟩
    exact hnone r hr
  unfold removeAll at h
  split at h
  · next hempty =>
      cases h
      refine (hmissing fun r hr => ?_).symm
      rw [resolve, if_pos hempty] at hr
      cases hr
  · split at h
    · cases h
    · split at h
      · next r hr =>
          cases h
          rw [(place_of_resolve hr).1]
      · dsimp only at h
        split at h
        · cases h
        · cases h
      · -- nothing is at the end of the path, so that nothing was removed
        next e he =>
          cases h
          refine (hmissing fun r hr => ?_).symm
          rw [he] at hr
          cases hr

/-- A cleaned path leads to whatever is at its place. -/
theorem Grounded.leads_of_isClean (ht : t.Grounded) (hclean : IsClean path) (n : FileNode)
    (hnode : t.node? (Place.ofPath path) = some n) : ∃ r, t.resolve path = .ok r :=
  ⟨_, (resolve_eq_ok_iff hclean).2 ⟨rfl, ht.opens_of_node? hnode⟩⟩

/-! ## Moving a directory -/

/-- A directory can be moved only to a place where nothing is. -/
theorem move_dir {old new : String} (hold : IsClean old) (hnew : IsClean new)
    (hne : Place.ofPath old ≠ Place.ofPath new) (hdir : t.node? (Place.ofPath old) = some .dir)
    (h : t.move old new = .ok t') :
    t.node? (Place.ofPath new) = none ∧ t' =
      t.transplant (Place.ofPath old) (Place.ofPath new) := by
  unfold move at h
  dsimp only at h
  split at h
  · cases h
  · cases h
  · next p n hp hlook =>
      have hn := ((look_eq_ok_iff hold).1 hlook).2
      rw [hdir] at hn
      cases hn
      rw [((resolve_eq_ok_iff hold).1 hp).1] at h
      split at h
      · cases h
      · next q hq =>
          rw [((resolve_eq_ok_iff hnew).1 hq).1] at h
          have hapart : (Place.ofPath old == Place.ofPath new) = false := beq_eq_false_iff_ne.2 hne
          split at h
          · rw [hapart] at h
            cases h
          · cases h
          · next hnone =>
              split at h
              · cases h
              · cases h
                exact ⟨hnone, rfl⟩

/-- Where something was moved away from nothing is left. -/
theorem node?_transplant_old {r : Place} (hp : p <+: r) (hq : ¬ q <+: r)
    (hbase : r.isBase = false) :
    (t.transplant p q).node? r = none := by
  have hrest : ((t.erase p).erase q).entries.lookup r = none := by
    have herased : ((t.erase p).erase q).node? r = none := by
      rw [node?_erase, node?_erase, if_neg hq, if_pos hp, hbase]
      rfl
    rwa [node?, hbase, if_neg Bool.false_ne_true] at herased
  rw [node?, hbase, if_neg Bool.false_ne_true, transplant, List.lookup_append, hrest,
    lookup_moved_eq_none hq]
  rfl

/-- Renaming within a directory changes what is under the two names. -/
theorem node?_rename {old new : String} (hne : old ≠ new) (hold : IsName old.toList)
    (hnew : IsName new.toList) (first : String) (rest : Place) :
    (t.transplant (o ++ [old]) (o ++ [new])).node? (o ++ first :: rest) =
      if first = new then t.node? (o ++ old :: rest)
      else if first = old then none
      else t.node? (o ++ first :: rest) := by
  have hunder : ∀ name, o ++ [name] <+: o ++ first :: rest ↔ first = name := by
    intro name
    rw [List.prefix_append_right_inj, List.cons_prefix_cons, and_iff_left (List.nil_prefix),
      eq_comm]
  have hbase : ∀ name, IsName name.toList → Place.isBase (o ++ name :: rest) = false :=
      fun name hname =>
    Place.isBase_eq_false_of_isName (List.mem_append_right _ List.mem_cons_self) hname
  split
  · next hfirst =>
      subst hfirst
      have hmoved := node?_transplant (t := t) (p := o ++ [old]) (q := o ++ [first]) rest
      rw [List.append_assoc, List.append_assoc, List.singleton_append, List.singleton_append]
        at hmoved
      rw [hmoved (hbase _ hnew), node?, hbase _ hold, if_neg Bool.false_ne_true]
  · next hother =>
      split
      · next hfirst =>
          subst hfirst
          exact node?_transplant_old ((hunder first).2 rfl) (mt (hunder new).1 hother)
            (hbase _ hold)
      · next hneither =>
          exact node?_transplant_of_not_below (mt (hunder old).1 hneither)
            (mt (hunder new).1 hother)

end FileTree
end ApiPages

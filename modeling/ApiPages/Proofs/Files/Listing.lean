import ApiPages.Proofs.Files.Trees

/-!
# What a directory holds

A directory lists the entries right below its place, in the order of their names.

* `FileTree.place_of_resolve` says that a path that can be followed, cleaned or not, leads to the
  place its text names;
* `FileTree.Proper` is a tree in which each place has one entry, with a name at its end;
* `FileTree.mem_children_iff`, `FileTree.exists_node?_iff` and `FileTree.pairwise_children` say what
  is listed and in which order.
-/

namespace ApiPages

open SlashPath

/-! ## Paths that are not clean -/

namespace Place

/-- The place of the elements kept of a path, latest first. -/
def ofKept (rooted : Bool) (kept : List (List Char)) : Place :=
  (if rooted then ["/"] else []) ++ kept.reverse.map String.ofList

theorem ofKept_cons (rooted : Bool) (e : List Char) (kept : List (List Char)) :
    ofKept rooted (e :: kept) = ofKept rooted kept ++ [String.ofList e] := by
  rw [ofKept, ofKept, List.reverse_cons, List.map_append, List.append_assoc]
  rfl

theorem ofKept_elements (path : String) :
    ofKept (isRooted path) (elements path).reverse = ofPath path := by
  rw [ofKept, List.reverse_reverse, ofPath]

/-- Above steps to the parent there is one more of them. -/
theorem parent_ofKept_up {kept : List (List Char)} (h : ∀ x ∈ kept, x = ['.', '.']) :
    (ofKept false kept).parent = ofKept false (['.', '.'] :: kept) := by
  have hall : (ofKept false kept).all (· == "..") = true := by
    rw [ofKept, if_neg Bool.false_ne_true, List.nil_append, List.all_eq_true]
    intro x hx
    rcases List.mem_map.1 hx with ⟨y, hy, rfl⟩
    rw [h y (List.mem_reverse.1 hy)]
    rfl
  have hroot : (ofKept false kept == ["/"]) = false := by
    rw [beq_eq_false_iff_ne]
    intro heq
    rw [heq] at hall
    exact absurd hall (by decide)
  rw [ofKept_cons, Place.parent, hroot, hall]
  rfl

/-- Above a name is what comes before it. -/
theorem parent_ofKept_name {rooted : Bool} {kept : List (List Char)} {e : List Char}
    (hup : e ≠ ['.', '.']) (hslash : '/' ∉ e) :
    (ofKept rooted (e :: kept)).parent = ofKept rooted kept := by
  have hname : String.ofList e ≠ ".." := by
    intro heq
    exact hup (by simpa using congrArg String.toList heq)
  have hall : (ofKept rooted (e :: kept)).all (· == "..") = false := by
    rw [List.all_eq_false, ofKept_cons]
    exact ⟨String.ofList e,
      List.mem_append_right _ (List.mem_singleton_self _), by simpa using hname⟩
  have hroot : (ofKept rooted (e :: kept) == ["/"]) = false := by
    rw [beq_eq_false_iff_ne, ofKept_cons]
    intro heq
    rcases List.append_eq_singleton_iff.1 heq with ⟨-, hsingle⟩ | ⟨-, hnone⟩
    · have hchars : e = ['/'] := by
        simpa using congrArg String.toList (List.cons.inj hsingle).1
      exact hslash (hchars ▸ List.mem_cons_self ..)
    · cases hnone
  rw [Place.parent, hroot, hall, ofKept_cons]
  exact List.dropLast_concat

/-- A step from one place to the next is what becomes of the elements that are kept. -/
theorem step_ofKept {rooted : Bool} {kept : List (List Char)} {e : List Char}
    (hkept : Stacked rooted kept) (hempty : e ≠ []) (hdot : e ≠ ['.']) :
    (ofKept rooted kept).step (String.ofList e) = ofKept rooted (pushElement rooted kept e) := by
  have hskip : (e.isEmpty || e == ['.']) = false := by simp [hempty, hdot]
  unfold pushElement
  rw [hskip, if_neg Bool.false_ne_true]
  by_cases hup : e = ['.', '.']
  · have hparent : (ofKept rooted kept).step (String.ofList e) = (ofKept rooted kept).parent := by
      rw [hup]
      rfl
    rw [hparent, hup, if_pos (beq_self_eq_true _)]
    cases kept with
    | nil =>
        cases rooted <;> rfl
    | cons last before =>
        dsimp only
        by_cases hlast : last = ['.', '.']
        · -- steps to the parent have only steps to the parent below them
          rcases hkept.2.1 hlast with ⟨hfront, hbefore⟩
          rw [if_pos (beq_iff_eq.2 hlast), hfront]
          apply parent_ofKept_up
          intro x hx
          exact (List.mem_cons.1 hx).elim (fun hx => hx.trans hlast) (hbefore x)
        · rw [if_neg (by simpa using hlast)]
          exact parent_ofKept_name hlast hkept.1.2.2
  · have hname : (String.ofList e == "..") = false := by
      rw [beq_eq_false_iff_ne]
      intro heq
      exact hup (by simpa using congrArg String.toList heq)
    rw [if_neg (by simpa using hup), ofKept_cons, step, hname]
    rfl

/-- A place with a name in it is none of those above every tree. -/
theorem isBase_eq_false_of_isName {p : Place} {name : String} (h : name ∈ p)
    (hname : IsName name.toList) :
    p.isBase = false := by
  rw [isBase, Bool.or_eq_false_iff, beq_eq_false_iff_ne, List.all_eq_false]
  constructor
  · rintro rfl
    rw [List.mem_singleton.1 h] at hname
    exact hname.2.2.2 (List.mem_singleton_self _)
  · refine ⟨name, h, ?_⟩
    rw [beq_iff_eq]
    rintro rfl
    exact hname.2.2.1 rfl

end Place

namespace FileTree

variable {t : FileTree} {p q r : Place} {path name : String} {n : FileNode}

theorem Opens.of_prefix (h : t.Opens p) (hq : q <+: p) : t.Opens q :=
  fun r name hr => h r name (hr.trans hq)

theorem Opens.concat (h : t.Opens p) (hdir : t.node? p = some .dir) (name : String) :
    t.Opens (p ++ [name]) := by
  intro q n hq
  rcases List.prefix_concat_iff.1 hq with hself | hbelow
  · rw [(List.append_inj' hself rfl).1]
    exact hdir
  · exact h q n hbelow

/-- On the way to the root and to the working directory there is nothing but what is always
there. -/
theorem opens_ofKept_nil (t : FileTree) (rooted : Bool) : t.Opens (Place.ofKept rooted []) := by
  intro q name hq
  have hshort : (Place.ofKept rooted []).length ≤ 1 := by cases rooted <;> decide
  have hlength := hq.length_le
  rw [List.length_append, List.length_singleton] at hlength
  have hnil : q = [] := List.length_eq_zero_iff.1 (by omega)
  rw [hnil]
  exact node?_of_isBase rfl

/-- The directories on the way to a place are there if those to the place before the last step
are. -/
theorem opens_pushElement {rooted : Bool} {kept : List (List Char)} {e : List Char}
    (h : t.Opens (Place.ofKept rooted kept))
    (hdir : t.node? (Place.ofKept rooted kept) = some .dir) :
    t.Opens (Place.ofKept rooted (pushElement rooted kept e)) := by
  have hpushed : t.Opens (Place.ofKept rooted (e :: kept)) := by
    rw [Place.ofKept_cons]
    exact h.concat hdir _
  unfold pushElement
  split
  · exact h
  · split
    · cases kept with
      | nil =>
          dsimp only
          split
          · exact h
          · exact hpushed
      | cons last before =>
          dsimp only
          split
          · exact hpushed
          · rw [Place.ofKept_cons] at h
            exact h.of_prefix (List.prefix_append _ _)
    · exact hpushed

theorem follow_ofKept {rooted : Bool} {kept es : List (List Char)} (hkept : Stacked rooted kept)
    (hes : ∀ e ∈ es, e ≠ [] ∧ e ≠ ['.'] ∧ '/' ∉ e) (hopens : t.Opens (Place.ofKept rooted kept))
    (h : t.follow (Place.ofKept rooted kept) (es.map String.ofList) = .ok r) :
    r = Place.ofKept rooted (es.foldl (pushElement rooted) kept) ∧ t.Opens r := by
  -- the elements that are kept tell the place, and the way to it stays open
  induction es generalizing kept with
  | nil =>
      cases h
      exact ⟨rfl, hopens⟩
  | cons e rest ih =>
      have he := hes e (List.mem_cons_self ..)
      rw [List.map_cons, follow_cons_eq_ok_iff, Place.step_ofKept hkept he.1 he.2.1] at h
      exact ih (stacked_pushElement hkept he.2.2)
        (fun e' he' => hes e' (List.mem_cons_of_mem _ he'))
        (opens_pushElement hopens h.1) h.2

/-- The steps of a path are its elements before anything is cancelled. -/
theorem exists_steps (path : String) : ∃ es : List (List Char),
    steps path = es.map String.ofList ∧ (∀ e ∈ es, e ≠ [] ∧ e ≠ ['.'] ∧ '/' ∉ e) ∧
      es.foldl (pushElement (isRooted path)) [] = (elements path).reverse := by
  -- cleaning skips the same elements that are no steps
  let isStep : List Char → Bool := fun e => !e.isEmpty && e != ['.']
  refine ⟨(path.toList.splitOn '/').filter isStep, ?_, fun e he => ?_, ?_⟩
  · exact steps_eq_map path
  · rcases List.mem_filter.1 he with ⟨hsplit, hstep⟩
    have hboth : e ≠ [] ∧ e ≠ ['.'] := by simpa [isStep] using hstep
    exact ⟨hboth.1, hboth.2, Text.not_mem_of_mem_splitOn '/' path.toList e hsplit⟩
  · rw [elements, List.reverse_reverse, List.foldl_filter]
    congr 1
    funext kept e
    split
    · rfl
    · next hskip =>
        have hskipped : (e.isEmpty || e == ['.']) = true := by
          simp only [isStep, bne, Bool.and_eq_true, not_and, Bool.not_eq_true', Bool.not_eq_false]
            at hskip
          rw [Bool.or_eq_true]
          by_cases hempty : e.isEmpty = true
          · exact .inl hempty
          · exact .inr (hskip (Bool.eq_false_iff.2 hempty))
        unfold pushElement
        rw [if_pos hskipped]

/-- A path that can be followed leads to the place its text names, through directories. -/
theorem place_of_resolve (h : t.resolve path = .ok r) : r = Place.ofPath path ∧ t.Opens r := by
  rw [resolve] at h
  split at h
  · cases h
  · rcases exists_steps path with ⟨es, hsteps, hes, hfold⟩
    have hstart : (if isRooted path then ["/"] else []) = Place.ofKept (isRooted path) [] := by
      rw [Place.ofKept]
      exact (List.append_nil _).symm
    rw [hstart, hsteps] at h
    have hkept : Stacked (isRooted path) [] := trivial
    have hall := follow_ofKept hkept hes (opens_ofKept_nil t _) h
    rwa [hfold, Place.ofKept_elements] at hall

theorem opens_of_isDir (h : t.isDir path = true) :
    t.Opens (Place.ofPath path) ∧ t.node? (Place.ofPath path) = some .dir := by
  rw [isDir, look] at h
  cases hresolve : t.resolve path with
  | error e =>
      rw [hresolve] at h
      cases h
  | ok r =>
      rcases place_of_resolve hresolve with ⟨rfl, hopens⟩
      rw [hresolve] at h
      dsimp only at h
      cases hnode : t.node? (Place.ofPath path) with
      | none =>
          rw [hnode] at h
          cases h
      | some n =>
          cases n with
          | dir =>
              exact ⟨hopens, rfl⟩
          | file b =>
              rw [hnode] at h
              cases h

/-! ## Entries -/

/-- Each place has one entry, which has a name at its end. -/
structure Proper (t : FileTree) : Prop where
  nodup : (t.entries.map Prod.fst).Nodup
  names : ∀ e ∈ t.entries, ∃ name ∈ e.1.getLast?, IsName name.toList

instance (e : List Char) : Decidable (IsName e) :=
  inferInstanceAs (Decidable (e ≠ [] ∧ e ≠ ['.'] ∧ e ≠ ['.', '.'] ∧ '/' ∉ e))

instance (t : FileTree) : Decidable t.Proper :=
  decidable_of_iff ((t.entries.map Prod.fst).Nodup ∧
      ∀ e ∈ t.entries, ∃ name ∈ e.1.getLast?, IsName name.toList)
    ⟨fun h => ⟨h.1, h.2⟩, fun h => ⟨h.nodup, h.names⟩⟩

theorem mem_below_iff {rel : Place} : (rel, n) ∈ t.below p ↔ (p ++ rel, n) ∈ t.entries := by
  rw [below, List.mem_mergeSort, List.mem_map]
  constructor
  · rintro ⟨⟨q, n'⟩, hentry, heq⟩
    cases heq
    have hprefix : p <+: q := List.isPrefixOf_iff_prefix.1 (List.mem_filter.1 hentry).2
    rw [List.prefix_iff_eq_append.1 hprefix]
    exact (List.mem_filter.1 hentry).1
  · intro hentry
    have hwithin : isWithin (p ++ rel) p = true :=
      List.isPrefixOf_iff_prefix.2 (List.prefix_append _ _)
    refine ⟨(p ++ rel, n), List.mem_filter.2 ⟨hentry, hwithin⟩, ?_⟩
    rw [List.drop_left]

theorem mem_children_iff : (name, n) ∈ t.children p ↔ (p ++ [name], n) ∈ t.entries := by
  rw [children, List.mem_filterMap, ← mem_below_iff]
  constructor
  · rintro ⟨⟨rel, n'⟩, hbelow, hlisted⟩
    dsimp only at hlisted
    split at hlisted
    · cases hlisted
      exact hbelow
    · cases hlisted
  · exact fun hbelow => ⟨_, hbelow, rfl⟩

/-- What is below a place under a name is there if the directory lists it. -/
theorem exists_node?_iff (hname : IsName name.toList) :
    (∃ n, t.node? (p ++ [name]) = some n) ↔ ∃ n, (name, n) ∈ t.children p := by
  have hbase : Place.isBase (p ++ [name]) = false :=
    Place.isBase_eq_false_of_isName (List.mem_append_right _ List.mem_cons_self) hname
  -- such a place is no base, so it is there if and only if it has an entry
  have hlookup : (∃ n, t.entries.lookup (p ++ [name]) = some n) ↔
      ∃ n, (p ++ [name], n) ∈ t.entries := by
    rw [← Option.isSome_iff_exists, ← Option.ne_none_iff_isSome, Ne, List.lookup_eq_none_iff]
    constructor
    · intro h
      rcases not_forall.1 h with ⟨e, he⟩
      rcases Classical.not_imp.1 he with ⟨hmem, heq⟩
      have hplace : p ++ [name] = e.1 := by simpa using heq
      exact ⟨e.2, hplace ▸ hmem⟩
    · rintro ⟨n, hmem⟩ hnone
      have hne := hnone _ hmem
      simp at hne
  rw [node?, hbase, if_neg Bool.false_ne_true, hlookup]
  exact exists_congr fun n => mem_children_iff.symm

/-- A name that is listed is a name. -/
theorem Proper.isName (h : t.Proper) (hlisted : (name, n) ∈ t.children p) : IsName name.toList := by
  rcases h.names _ (mem_children_iff.1 hlisted) with ⟨name', hlast, hname⟩
  rw [List.getLast?_concat, Option.mem_some_iff] at hlast
  rwa [hlast]

/-- What is below a place is listed in the order of the places, each of them once. -/
theorem Proper.pairwise_below (h : t.Proper) (p : Place) :
    (t.below p).Pairwise fun a b => a.1.key ≤ b.1.key ∧ a.1 ≠ b.1 := by
  have hsorted : (t.below p).Pairwise fun a b => decide (a.1.key ≤ b.1.key) = true :=
    List.pairwise_mergeSort key_le_trans key_le_total _
  have hapart : (t.below p).Pairwise fun a b => a.1 ≠ b.1 := by
    apply (List.mergeSort_perm _ _).symm.pairwise _ fun hne => hne.symm
    apply List.pairwise_map.2
    apply List.Pairwise.imp_of_mem _ ((List.pairwise_map.1 h.nodup).sublist List.filter_sublist)
    intro a b ha hb hne heq
    -- entries below a place are told apart by what follows it
    have hbelow : ∀ e ∈ t.entries.filter (fun e => isWithin e.1 p), p ++ e.1.drop p.length = e.1 :=
      fun e he =>
        List.prefix_iff_eq_append.1 (List.isPrefixOf_iff_prefix.1 (List.mem_filter.1 he).2)
    have heq' : a.1.drop p.length = b.1.drop p.length := heq
    apply hne
    calc
      a.1 = p ++ a.1.drop p.length := (hbelow a ha).symm
      _ = p ++ b.1.drop p.length := by rw [heq']
      _ = b.1 := hbelow b hb
  exact (hsorted.and hapart).imp fun hboth => ⟨of_decide_eq_true hboth.1, hboth.2⟩

/-- A directory lists its names in order, each of them once. -/
theorem Proper.pairwise_children (h : t.Proper) (p : Place) :
    (t.children p).Pairwise fun a b => a.1 < b.1 := by
  rw [children, List.pairwise_filterMap]
  refine (h.pairwise_below p).imp ?_
  rintro ⟨q, n⟩ ⟨q', n'⟩ ⟨hle, hne⟩ a ha b hb
  dsimp only at ha hb
  split at ha
  · split at hb
    · next name _ name' =>
        cases ha
        cases hb
        -- a place of one name is ordered by that name
        have hkey : ∀ x : String, Place.key [x] = x := fun x => rfl
        rw [hkey, hkey] at hle
        refine Classical.byContradiction fun hlt => hne ?_
        rw [String.le_antisymm hle (String.not_lt.1 hlt)]
    · cases hb
  · cases ha

/-- Entries that are in order are listed as they stand. -/
theorem below_eq_of_sorted {es : List (Place × FileNode)}
    (hbelow : (t.entries.filter (fun e => isWithin e.1 p)).map
      (fun e => (e.1.drop p.length, e.2)) = es)
    (hsorted : es.Pairwise fun a b => decide (a.1.key ≤ b.1.key) = true) : t.below p = es := by
  rw [below, hbelow]
  exact List.mergeSort_of_pairwise hsorted

/-- The entries of a directory are there under its path. -/
theorem Proper.look_of_list? (h : t.Proper) {entries : List (String × FileNode)}
    (hlist : t.list? path = some entries) (hmem : (name, n) ∈ entries) :
    IsClean (join [path, name]) ∧ ∃ n', t.look (join [path, name]) = .ok n' := by
  unfold list? at hlist
  cases hresolve : t.resolve path with
  | error e =>
      rw [hresolve] at hlist
      cases hlist
  | ok p =>
      rcases place_of_resolve hresolve with ⟨rfl, hopens⟩
      rw [hresolve] at hlist
      dsimp only at hlist
      split at hlist
      · next hdir =>
          cases hlist
          have hname := h.isName hmem
          have hne : name ≠ "" := by
            rintro rfl
            exact hname.1 rfl
          have hclean : IsClean (join [path, name]) :=
            isClean_join (List.mem_cons_of_mem _ (List.mem_singleton_self _)) hne
          rcases (exists_node?_iff hname).2 ⟨n, hmem⟩ with ⟨n', hnode⟩
          refine ⟨hclean, n', (look_eq_ok_iff hclean).2 ?_⟩
          rw [Place.ofPath_join path (by simpa using hname)]
          exact ⟨hopens.concat (beq_iff_eq.1 hdir) name, hnode⟩
      · cases hlist

theorem list?_eq (hclean : IsClean path) (hopens : t.Opens (Place.ofPath path))
    (hdir : t.node? (Place.ofPath path) = some .dir) :
    t.list? path = some (t.children (Place.ofPath path)) := by
  have hresolve : t.resolve path = .ok (Place.ofPath path) :=
    (resolve_eq_ok_iff hclean).2 ⟨rfl, hopens⟩
  unfold list? isDirAt
  rw [hresolve]
  dsimp only
  rw [hdir]
  rfl

end FileTree
end ApiPages

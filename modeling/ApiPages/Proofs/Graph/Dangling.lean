import ApiPages.Proofs.Graph.Layers

/-!
# Ids that lead nowhere

While a module is read, the ids it lists are asked for one after the other, and after each of them
the ids inside its item.  Those that cannot be looked up are noted, also when the module is left out
of the tree.

* `Index.referencesOf` are the ids asked for, `Index.missing_eq` the ones among them that are noted;
* `FirstsOf` says that a list follows the first places of its ids in another list, which is what
  `Walk.fresh` does (`Walk.firstsOf_fresh`);
* `Walk.Noted` is the invariant of the walk: what is visited and what is noted follows from the
  modules read so far;
* `Tree.dangling_exact` says which ids are left dangling, and in what order.
-/

namespace ApiPages

namespace Index

/-! ## References -/

/-- The ids inside the item with the given id, if it is of a recognised kind. -/
def innerIds (idx : Index) (id : ItemId) : List ItemId :=
  ((idx.lookup? id).bind fun it => it.kind?.map (it.memberIds idx.readsOn)).getD []

/-- The ids that are asked for when a module is read. -/
def referencesOf (idx : Index) (id : ItemId) : List ItemId :=
  (idx.listedBy id).flatMap fun child => child :: idx.innerIds child

/-- The id is absent from the table, or its entry is malformed. -/
def isLost (idx : Index) (id : ItemId) : Bool :=
  (idx.lookup? id).isNone

/-- The module lists the id, or a struct, an enum or a trait with the id among its fields, variants
or members. -/
def Mentions (idx : Index) (m id : ItemId) : Prop :=
  id ∈ idx.listedBy m ∨ ∃ child ∈ idx.listedBy m, ∃ it k, idx.lookup? child = some it ∧
    it.kind? = some k ∧ k ∈ [Kind.struct, Kind.enum, Kind.trait] ∧ id ∈ it.memberIds idx.readsOn k

theorem missing_eq (idx : Index) (id : ItemId) :
    idx.missing id = (id :: idx.innerIds id).filter idx.isLost := by
  cases hit : idx.lookup? id with
  | none =>
      simp [missing, innerIds, isLost, hit]
  | some it =>
      -- an id that can be looked up is not missing itself
      have hfound : idx.isLost id = false := by simp [isLost, hit]
      rw [List.filter_cons_of_neg (by simp [hfound])]
      cases hk : it.kind? with
      | none =>
          simp [missing, innerIds, hit, hk]
      | some k =>
          simp only [missing, innerIds, hit, hk, Option.bind_some, Option.map_some,
            Option.getD_some]
          rfl

/-- What is noted while a module is read. -/
theorem flatMap_missing (idx : Index) (m : ItemId) :
    (idx.listedBy m).flatMap idx.missing = (idx.referencesOf m).filter idx.isLost := by
  rw [referencesOf, List.filter_flatMap]
  exact congrArg (List.flatMap · (idx.listedBy m)) (funext idx.missing_eq)

theorem mem_innerIds_iff {idx : Index} {child id : ItemId} :
    id ∈ idx.innerIds child ↔ ∃ it k, idx.lookup? child = some it ∧ it.kind? = some k ∧
      k ∈ [Kind.struct, Kind.enum, Kind.trait] ∧ id ∈ it.memberIds idx.readsOn k := by
  cases hit : idx.lookup? child with
  | none =>
      simp [innerIds, hit]
  | some it =>
      cases hk : it.kind? with
      | none =>
          simp [innerIds, hit, hk]
      | some k =>
          -- the other kinds hold no ids
          cases k <;> simp [innerIds, hit, hk, Item.memberIds]

theorem mem_referencesOf_iff {idx : Index} {m id : ItemId} :
    id ∈ idx.referencesOf m ↔ idx.Mentions m id := by
  rw [referencesOf, List.mem_flatMap, Mentions]
  constructor
  · rintro ⟨child, hchild, hid⟩
    rcases List.mem_cons.1 hid with rfl | hinner
    · exact Or.inl hchild
    · exact Or.inr ⟨child, hchild, mem_innerIds_iff.1 hinner⟩
  · rintro (hid | ⟨child, hchild, hinner⟩)
    · exact ⟨id, hid, List.mem_cons_self ..⟩
    · exact ⟨child, hchild, List.mem_cons_of_mem _ (mem_innerIds_iff.2 hinner)⟩

end Index

/-! ## First places -/

/-- The ids stand in the order in which they first occur in another list. -/
def FirstsOf (mentioned ids : List ItemId) : Prop :=
  ids.Pairwise fun a b => mentioned.idxOf a < mentioned.idxOf b

theorem FirstsOf.nodup {mentioned ids : List ItemId} (h : FirstsOf mentioned ids) : ids.Nodup := by
  refine List.Pairwise.imp (fun {a b} hlt heq => ?_) h
  rw [heq] at hlt
  exact Nat.lt_irrefl _ hlt

namespace Walk

theorem fresh_append (seen ids ids' : List ItemId) :
    fresh seen (ids ++ ids') = fresh seen ids ++ fresh (seen ++ fresh seen ids) ids' := by
  induction ids generalizing seen with
  | nil =>
      simp [fresh]
  | cons id ids ih =>
      by_cases hseen : seen.contains id
      · rw [List.cons_append, fresh, if_pos hseen, ih, fresh, if_pos hseen]
      · rw [List.cons_append, fresh, if_neg hseen, ih, fresh, if_neg hseen]
        simp

/-- What is taken from a part of a list follows the whole list. -/
theorem firstsOf_fresh (p : ItemId → Bool) (seen ids : List ItemId) :
    FirstsOf ids (fresh seen (ids.filter p)) := by
  induction ids generalizing seen with
  | nil =>
      exact List.Pairwise.nil
  | cons id ids ih =>
      -- an id in front moves the places of all others by one
      have hshift : ∀ seen', (∀ a ∈ fresh seen' (ids.filter p), id ≠ a) →
          FirstsOf (id :: ids) (fresh seen' (ids.filter p)) := by
        intro seen' hne
        refine (ih seen').imp_of_mem fun {a b} ha hb hlt => ?_
        rw [List.idxOf_cons_ne _ (hne a ha), List.idxOf_cons_ne _ (hne b hb)]
        exact Nat.succ_lt_succ hlt
      by_cases hp : p id
      · rw [List.filter_cons_of_pos hp, fresh]
        by_cases hseen : seen.contains id
        · rw [if_pos hseen]
          refine hshift seen fun a ha heq => ?_
          exact (mem_fresh_iff.1 ha).2 (heq ▸ List.contains_iff_mem.1 hseen)
        · rw [if_neg hseen]
          have hne : ∀ a ∈ fresh (seen ++ [id]) (ids.filter p), id ≠ a := by
            intro a ha heq
            exact (mem_fresh_iff.1 ha).2 (heq ▸ List.mem_append_right _ (List.mem_singleton_self _))
          refine List.pairwise_cons.2 ⟨fun a ha => ?_, hshift _ hne⟩
          rw [List.idxOf_cons_self, List.idxOf_cons_ne _ (hne a ha)]
          exact Nat.succ_pos _
      · rw [List.filter_cons_of_neg hp]
        refine hshift seen fun a ha heq => hp ?_
        exact heq ▸ (List.mem_filter.1 (mem_fresh_iff.1 ha).1).2

end Walk

theorem Tree.firsts_eq_fresh (ids : List ItemId) : firsts ids = Walk.fresh [] ids := by
  have hfold : ∀ seen : List ItemId,
      ids.foldl (fun seen id => if seen.contains id then seen else seen ++ [id]) seen =
        seen ++ Walk.fresh seen ids := by
    induction ids with
    | nil =>
        simp [Walk.fresh]
    | cons id ids ih =>
        intro seen
        by_cases hseen : seen.contains id
        · rw [List.foldl_cons, if_pos hseen, ih, Walk.fresh, if_pos hseen]
        · rw [List.foldl_cons, if_neg hseen, ih, Walk.fresh, if_neg hseen]
          simp
  exact hfold []

/-! ## The walk -/

namespace Walk

/-- The state of a walk after the modules in `done` have been read: which ids it has visited and
which it has noted, both in the order of their first places. -/
structure Noted (idx : Index) (root : ItemId) (done : List ItemId) (w : Walk) : Prop
    extends Progress idx root done w where
  met : w.visited = fresh [] (root :: done.flatMap idx.submodulesOf)
  noted : w.missing = (done.flatMap idx.referencesOf).filter idx.isLost

variable {idx : Index} {root id : ItemId} {done : List ItemId} {w : Walk}
  {above : List String} {queue : List (ItemId × List String)}

theorem noted_initial (idx : Index) (root : ItemId) : Noted idx root [] (initial root) where
  toProgress := progress_initial idx root
  met := rfl
  noted := rfl

theorem Noted.step (h : Noted idx root done w) (hroot : idx.kind? root = some .module)
    (hq : w.queue = (id, above) :: queue) : Noted idx root (done ++ [id]) (w.step idx root) := by
  have hid : id ∈ w.visited := by
    rw [h.visited, hq]
    exact List.mem_append_right _ (List.mem_cons_self ..)
  rcases Index.exists_lookup_of_kind ((h.reaches id hid).kind hroot) with ⟨it, hit⟩
  constructor
  case toProgress =>
    exact h.toProgress.step hroot hq
  case met =>
    rw [step_of_lookup hq hit, List.flatMap_append, List.flatMap_singleton, ← List.cons_append,
      fresh_append, List.nil_append, ← h.met]
  case noted =>
    rw [step_of_lookup hq hit, List.flatMap_append, List.flatMap_singleton, List.filter_append,
      ← h.noted, ← Index.flatMap_missing, Index.listedBy_of_lookup hit]

theorem noted_ofRoot (hroot : idx.kind? root = some .module) :
    (ofRoot idx root).queue = [] ∧ ∃ done, Noted idx root done (ofRoot idx root) := by
  rcases progress_ofRoot hroot with ⟨-, -, hempty⟩
  have hinitial : ∃ done, Noted idx root done (initial root) := ⟨[], noted_initial idx root⟩
  refine ⟨hempty, ofRoot_induction (P := fun w => ∃ done, Noted idx root done w) hinitial ?_⟩
  rintro w id above queue ⟨done, h⟩ hq
  exact ⟨done ++ [id], h.step hroot hq⟩

end Walk

/-! ## Trees -/

namespace Tree

/-- The dangling ids of a tree are, each once, those that cannot be looked up and are mentioned by a
reachable module, also by one that the tree leaves out.  They stand in the order of their first
mentions, with the modules read as they are met themselves, breadth first. -/
theorem dangling_exact {idx : Index} {mode : Mode} {root : ItemId} {t : Tree}
    (h : ofIndex idx mode root = .ok t) :
    t.dangling.Nodup ∧
    (∀ id, id ∈ t.dangling ↔ idx.lookup? id = none ∧
      ∃ m, idx.Reaches (idx.rootFor root) m ∧ idx.Mentions m id) ∧
    ∃ order, (∀ m, m ∈ order ↔ idx.Reaches (idx.rootFor root) m) ∧
      FirstsOf (idx.rootFor root :: order.flatMap idx.submodulesOf) order ∧
      t.modules.map Module.id = order.filter (Walk.keeps idx (idx.rootFor root)) ∧
      FirstsOf (order.flatMap idx.referencesOf) t.dangling := by
  have hroot := (eq_of_ofIndex h).1
  rw [ofIndex_of_module_root mode hroot] at h
  cases h
  generalize idx.rootFor root = r at hroot
  rcases Walk.noted_ofRoot hroot with ⟨hempty, done, hnoted⟩
  show (firsts (Walk.ofRoot idx r).missing).Nodup ∧ _
  rw [firsts_eq_fresh, hnoted.noted]
  have hfirsts := Walk.firstsOf_fresh idx.isLost [] (done.flatMap idx.referencesOf)
  have hmem := hnoted.mem_done_iff hempty
  refine ⟨hfirsts.nodup, fun id => ?_, done, hmem, ?_, hnoted.modules, hfirsts⟩
  · rw [Walk.mem_fresh_iff, List.mem_filter, List.mem_flatMap, Index.isLost,
      Option.isNone_iff_eq_none]
    constructor
    · rintro ⟨⟨⟨m, hm, hid⟩, hlost⟩, -⟩
      exact ⟨hlost, m, (hmem m).1 hm, Index.mem_referencesOf_iff.1 hid⟩
    · rintro ⟨hlost, m, hm, hid⟩
      exact ⟨⟨⟨m, (hmem m).2 hm, Index.mem_referencesOf_iff.2 hid⟩, hlost⟩, List.not_mem_nil⟩
  · have horder := Walk.firstsOf_fresh (fun _ => true) [] (r :: done.flatMap idx.submodulesOf)
    rwa [List.filter_true, ← hnoted.met, hnoted.visited_eq hempty] at horder

/-- The root lists a missing id twice, a module that lists nothing but a missing id, a struct whose
fields are a missing id and a malformed entry, and a struct whose list of fields ends with a
malformed id. -/
def lostIndex : Index :=
  { root := "0"
    readsOn := false
    items :=
      [("0", moduleNamed "app" ["9", "1", "2", "3", "9"]), ("1", moduleNamed "empty" ["8"]),
        ("2", .object "" [("name", .string "" "S"), ("inner", .object "" [("struct",
          .object "" [("fields", .array "" [.string "" "7", .string "" "5"])])])]),
        ("3", .object "" [("name", .string "" "T"), ("inner", .object "" [("struct",
          .object ""
            [("kind", .object "" [("tuple", .array "" [.bool true, .string "" "6"])])])])]),
        ("5", .string "" "")] }

theorem dangling_exact_lost : ∃ t, ofIndex lostIndex .library "" = .ok t ∧
    t.dangling = ["9", "7", "5", "", "8"] ∧ t.modules.map Module.id = ["0"] ∧
    ∃ m, lostIndex.Reaches "0" m ∧ lostIndex.Mentions m "8" := by
  have hroot : lostIndex.kind? (lostIndex.rootFor "") = some .module := by decide
  have htree := ofIndex_of_module_root .library hroot
  have hdangling : firsts (Walk.ofRoot lostIndex (lostIndex.rootFor "")).missing =
      ["9", "7", "5", "", "8"] := by
    decide
  rcases dangling_exact htree with ⟨-, hmem, -⟩
  have hlost : "8" ∈ firsts (Walk.ofRoot lostIndex (lostIndex.rootFor "")).missing := by
    rw [hdangling]
    decide
  exact ⟨_, htree, hdangling, by decide, ((hmem "8").1 hlost).2⟩

end Tree
end ApiPages

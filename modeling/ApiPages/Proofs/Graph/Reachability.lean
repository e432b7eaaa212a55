import ApiPages.Proofs.Graph.Walk
import Mathlib.Data.List.Perm.Subperm
import Mathlib.Logic.Relation

/-!
# The tree holds the reachable modules

`Index.Contains` is the edge relation of the module graph and `Index.Reaches` its reflexive and
transitive closure.  The graph may have cycles, and ids may be listed several times, missing or
malformed.

* `Walk.Progress` is the invariant of the walk: the visited ids are the ids read so far followed by
  those in the queue, without repetition; they are all reachable, and what an id read so far
  contains is visited;
* `Walk.Progress.step` keeps it over one step, `Walk.progress_iterate` over as many steps as there
  are ids read;
* `Walk.progress_ofRoot` says that the walk ends, and `Tree.exists_tree_of_module_root` that the
  modules of a tree are the root and the reachable modules that list something.
-/

namespace ApiPages

namespace Index

/-- The first id is a module, lists the second one, and that is a module, too. -/
def Contains (idx : Index) (a b : ItemId) : Prop :=
  idx.kind? a = some .module ∧ b ∈ idx.listedBy a ∧ idx.kind? b = some .module

instance (idx : Index) (a b : ItemId) : Decidable (idx.Contains a b) :=
  inferInstanceAs (Decidable (_ ∧ _ ∧ _))

/-- A chain of modules, each listed by the one before it. -/
def Reaches (idx : Index) : ItemId → ItemId → Prop :=
  Relation.ReflTransGen idx.Contains

/-- The root that is meant by an id; the empty id means the index's own root. -/
def rootFor (idx : Index) (root : ItemId) : ItemId :=
  if root.isEmpty then idx.root else root

theorem contains_iff_mem_submodulesOf {idx : Index} {a b : ItemId}
    (ha : idx.kind? a = some .module) : idx.Contains a b ↔ b ∈ idx.submodulesOf a := by
  simp [Contains, submodulesOf, ha]

theorem Reaches.kind {idx : Index} {a b : ItemId} (h : idx.Reaches a b)
    (ha : idx.kind? a = some .module) : idx.kind? b = some .module := by
  rcases Relation.ReflTransGen.cases_tail h with rfl | ⟨c, _, hcb⟩
  · exact ha
  · exact hcb.2.2

theorem exists_lookup_of_kind {idx : Index} {id : ItemId} {k : Kind} (h : idx.kind? id = some k) :
    ∃ it, idx.lookup? id = some it := by
  cases hit : idx.lookup? id with
  | none =>
      simp [Index.kind?, hit] at h
  | some it =>
      exact ⟨it, rfl⟩

/-- An id that can be looked up is a key of the table. -/
theorem mem_keys_of_lookup {idx : Index} {id : ItemId} {it : Item} (h : idx.lookup? id = some it) :
    id ∈ idx.items.map Prod.fst := by
  -- the table is searched from its end, since the last entry of a key counts
  rcases Option.bind_eq_some_iff.1 h with ⟨j, hj, _⟩
  rcases List.lookup_eq_some_iff.1 hj with ⟨before, after, hsplit, _⟩
  have hmem : (id, j) ∈ idx.items.reverse := by
    rw [hsplit]
    exact List.mem_append_right _ (List.mem_cons_self ..)
  exact List.mem_map.2 ⟨(id, j), List.mem_reverse.1 hmem, rfl⟩

end Index

namespace Walk

/-! ## The invariant -/

/-- The state of a walk after the ids in `done` have been read. -/
structure Progress (idx : Index) (root : ItemId) (done : List ItemId) (w : Walk) : Prop where
  visited : w.visited = done ++ w.queue.map Prod.fst
  nodup : w.visited.Nodup
  first : w.visited.head? = some root
  reaches : ∀ id ∈ w.visited, idx.Reaches root id
  closed : ∀ a ∈ done, ∀ b, idx.Contains a b → b ∈ w.visited
  modules : w.modules.map Module.id = done.filter (keeps idx root)

theorem progress_initial (idx : Index) (root : ItemId) : Progress idx root [] (initial root) where
  visited := rfl
  nodup := List.nodup_singleton root
  first := rfl
  reaches := by
    intro id hid
    rw [List.mem_singleton.1 hid]
    exact Relation.ReflTransGen.refl
  closed := by
    intro a ha
    cases ha
  modules := rfl

theorem Progress.step {idx : Index} {root id : ItemId} {done : List ItemId} {w : Walk}
    {above : List String} {queue : List (ItemId × List String)}
    (h : Progress idx root done w) (hroot : idx.kind? root = some .module)
    (hq : w.queue = (id, above) :: queue) :
    Progress idx root (done ++ [id]) (w.step idx root) := by
  have hsplit : w.visited = done ++ id :: queue.map Prod.fst := by
    rw [h.visited, hq, List.map_cons]
  have hid : id ∈ w.visited := by
    rw [hsplit]
    exact List.mem_append_right _ (List.mem_cons_self ..)
  -- what is in the queue is reachable, so the step finds its item and the item is a module
  have hkind : idx.kind? id = some .module := (h.reaches id hid).kind hroot
  rcases Index.exists_lookup_of_kind hkind with ⟨it, hit⟩
  rw [step_of_lookup hq hit]
  constructor
  · show w.visited ++ fresh w.visited (idx.submodulesOf id) = _
    simp [hsplit, Function.comp_def]
  · exact nodup_append_fresh _ h.nodup
  · show (w.visited ++ fresh w.visited (idx.submodulesOf id)).head? = some root
    rw [List.head?_append, h.first, Option.some_or]
  · intro b hb
    rcases List.mem_append.1 hb with hold | hnew
    · exact h.reaches b hold
    -- a new id is one edge away from the id that was read
    · have hsub : b ∈ idx.submodulesOf id := (mem_fresh_iff.1 hnew).1
      have hedge : idx.Contains id b := (Index.contains_iff_mem_submodulesOf hkind).2 hsub
      exact (h.reaches id hid).tail hedge
  · intro a ha b hab
    show b ∈ w.visited ++ fresh w.visited (idx.submodulesOf id)
    rcases List.mem_append.1 ha with hdone | hlast
    · exact List.mem_append_left _ (h.closed a hdone b hab)
    -- what the id that was read contains is visited already or is queued by this step
    · rw [List.mem_singleton.1 hlast] at hab
      by_cases hseen : b ∈ w.visited
      · exact List.mem_append_left _ hseen
      · have hsub : b ∈ idx.submodulesOf id := (Index.contains_iff_mem_submodulesOf hkind).1 hab
        exact List.mem_append_right _ (mem_fresh_iff.2 ⟨hsub, hseen⟩)
  · show (w.modules ++ _).map Module.id = _
    rw [List.map_append, h.modules, List.filter_append, List.filter_singleton]
    congr 1
    cases keeps idx root id with
    | true =>
        rfl
    | false =>
        rfl

/-! ## Whole walks -/

/-- When the queue is empty, every visited id has been read. -/
theorem Progress.visited_eq {idx : Index} {root : ItemId} {done : List ItemId} {w : Walk}
    (h : Progress idx root done w) (hq : w.queue = []) : w.visited = done := by
  rw [h.visited, hq, List.map_nil, List.append_nil]

/-- Each id read is a different key of the table. -/
theorem Progress.length_done_le {idx : Index} {root : ItemId} {done : List ItemId} {w : Walk}
    (h : Progress idx root done w) (hroot : idx.kind? root = some .module) :
    done.length ≤ idx.items.length := by
  have hvisited := h.visited
  have hnodup : done.Nodup := by
    have hall := h.nodup
    rw [hvisited] at hall
    exact hall.of_append_left
  have hkeys : done ⊆ idx.items.map Prod.fst := by
    intro id hid
    have hmem : id ∈ w.visited := by
      rw [hvisited]
      exact List.mem_append_left _ hid
    rcases Index.exists_lookup_of_kind ((h.reaches id hmem).kind hroot) with ⟨it, hit⟩
    exact Index.mem_keys_of_lookup hit
  have hle := (hnodup.subperm hkeys).length_le
  rwa [List.length_map] at hle

/-- After `n` steps either the queue is empty or `n` more ids have been read. -/
theorem progress_iterate {idx : Index} {root : ItemId} (hroot : idx.kind? root = some .module)
    (n : Nat) :
    ∀ {done : List ItemId} {w : Walk}, Progress idx root done w →
      ∃ done', Progress idx root done' ((step idx root)^[n] w) ∧
        (((step idx root)^[n] w).queue = [] ∨ done'.length = done.length + n) := by
  induction n with
  | zero =>
      intro done w h
      exact ⟨done, h, Or.inr rfl⟩
  | succ n ih =>
      intro done w h
      rw [Function.iterate_succ_apply]
      cases hq : w.queue with
      | nil =>
          have hfix := step_of_queue_nil idx root hq
          rw [hfix, Function.iterate_fixed hfix]
          exact ⟨done, h, Or.inl hq⟩
      | cons head queue =>
          rcases ih (h.step hroot hq) with ⟨done', hprogress, hend⟩
          refine ⟨done', hprogress, hend.imp_right ?_⟩
          intro hlen
          calc
            done'.length = (done ++ [head.1]).length + n := hlen
            _ = done.length + (n + 1) := by
                rw [List.length_append, List.length_singleton, Nat.add_assoc, Nat.add_comm 1 n]

/-- The walk from a module ends with an empty queue. -/
theorem progress_ofRoot {idx : Index} {root : ItemId} (hroot : idx.kind? root = some .module) :
    ∃ done, Progress idx root done (ofRoot idx root) ∧ (ofRoot idx root).queue = [] := by
  have hrun : ofRoot idx root = (step idx root)^[idx.items.length + 1] (initial root) :=
    run_eq_iterate ..
  rw [hrun]
  rcases progress_iterate hroot (idx.items.length + 1) (progress_initial idx root) with
    ⟨done, hprogress, hempty | hlen⟩
  · exact ⟨done, hprogress, hempty⟩
  · -- more ids cannot have been read than the table has entries
    have hle := hprogress.length_done_le hroot
    rw [hlen, List.length_nil] at hle
    omega

/-- Once the queue is empty, the ids read are the reachable modules. -/
theorem Progress.mem_done_iff {idx : Index} {root : ItemId} {done : List ItemId} {w : Walk}
    (h : Progress idx root done w) (hq : w.queue = []) (id : ItemId) :
    id ∈ done ↔ idx.Reaches root id := by
  have hvisited := h.visited_eq hq
  constructor
  · intro hid
    exact h.reaches id (hvisited ▸ hid)
  · intro hreach
    -- along the chain of modules: the root is read, and what an id read contains is read as well
    induction hreach with
    | refl =>
        exact hvisited ▸ List.mem_of_mem_head? h.first
    | tail _ hedge ih =>
        exact hvisited ▸ h.closed _ ih _ hedge

end Walk

/-! ## Trees -/

namespace Tree

theorem ofIndex_of_module_root {idx : Index} {root : ItemId} (mode : Mode)
    (hroot : idx.kind? (idx.rootFor root) = some .module) :
    ofIndex idx mode root =
      .ok
        { mode, index := idx
          modules := (Walk.ofRoot idx (idx.rootFor root)).modules
          dangling := firsts (Walk.ofRoot idx (idx.rootFor root)).missing } := by
  rcases Index.exists_lookup_of_kind hroot with ⟨it, hit⟩
  have hkind : it.kind? = some .module := by
    simpa [Index.kind?, hit] using hroot
  unfold ofIndex
  rw [Index.rootFor] at hit ⊢
  simp only [hit, hkind, BEq.rfl, if_true]

/-- Below a root that is a module there is a tree.  The walk to it ends by itself, and the tree
holds the root first and then, each once, the reachable modules that list an item of a recognised
kind. -/
theorem exists_tree_of_module_root (idx : Index) (mode : Mode) (root : ItemId)
    (hroot : idx.kind? (idx.rootFor root) = some .module) :
    ∃ t, ofIndex idx mode root = .ok t ∧
      (∃ n, let w := (Walk.step idx (idx.rootFor root))^[n] (Walk.initial (idx.rootFor root))
        w.queue = [] ∧ t.modules = w.modules) ∧
      (t.modules.map Module.id).Nodup ∧
      (t.modules.map Module.id).head? = some (idx.rootFor root) ∧
      ∀ id, id ∈ t.modules.map Module.id ↔
        id = idx.rootFor root ∨ (idx.Reaches (idx.rootFor root) id ∧ idx.hasChild id = true) := by
  refine ⟨_, ofIndex_of_module_root mode hroot, ?_⟩
  generalize idx.rootFor root = r at hroot
  rcases Walk.progress_ofRoot hroot with ⟨done, hprogress, hempty⟩
  have hvisited := hprogress.visited_eq hempty
  have hrun : Walk.ofRoot idx r = (Walk.step idx r)^[idx.items.length + 1] (Walk.initial r) :=
    Walk.run_eq_iterate ..
  refine ⟨⟨idx.items.length + 1, ?_, ?_⟩, ?_, ?_, ?_⟩
  · exact hrun ▸ hempty
  · exact congrArg Walk.modules hrun
  · rw [hprogress.modules, ← hvisited]
    exact hprogress.nodup.filter _
  · -- the root heads the ids read, and it is kept whatever it lists
    have hfirst := hprogress.first
    rw [hvisited] at hfirst
    rcases List.head?_eq_some_iff.1 hfirst with ⟨rest, hrest⟩
    rw [hprogress.modules, hrest, List.filter_cons_of_pos (by simp [Walk.keeps]), List.head?_cons]
  · intro id
    rw [hprogress.modules, List.mem_filter, hprogress.mem_done_iff hempty, Walk.keeps,
      Bool.or_eq_true, beq_iff_eq]
    constructor
    · rintro ⟨hreach, rfl | hchild⟩
      · exact Or.inl rfl
      · exact Or.inr ⟨hreach, hchild⟩
    · rintro (rfl | ⟨hreach, hchild⟩)
      · exact ⟨Relation.ReflTransGen.refl, Or.inl rfl⟩
      · exact ⟨hreach, Or.inr hchild⟩

/-- An item that is a module and lists the given ids. -/
def moduleListing (ids : List ItemId) : Json :=
  .object "" [("inner", .object "" [("module",
    .object "" [("items", .array "" (ids.map (Json.string "")))])])]

/-- A root that lists itself, a missing id and one module twice; below it an empty module and a
cycle back to the root. -/
def cyclicIndex : Index :=
  { root := "0"
    items :=
      [("0", moduleListing ["0", "9", "1", "2", "1"]), ("1", moduleListing ["2", "3"]),
        ("2", moduleListing []), ("3", moduleListing ["0"])] }

theorem exists_tree_of_cyclicIndex :
    cyclicIndex.kind? (cyclicIndex.rootFor "") = some .module ∧
      ∃ t, ofIndex cyclicIndex .library "" = .ok t ∧
        (t.modules.map Module.id).Nodup ∧
        (t.modules.map Module.id).head? = some "0" ∧
        "3" ∈ t.modules.map Module.id ∧ "2" ∉ t.modules.map Module.id := by
  have hroot : cyclicIndex.kind? (cyclicIndex.rootFor "") = some .module := by decide
  refine ⟨hroot, ?_⟩
  rcases exists_tree_of_module_root cyclicIndex .library "" hroot with
    ⟨t, htree, -, hnodup, hfirst, hmem⟩
  refine ⟨t, htree, hnodup, hfirst, (hmem "3").2 (Or.inr ⟨?_, by decide⟩), ?_⟩
  · have h01 : cyclicIndex.Contains "0" "1" := by decide
    have h13 : cyclicIndex.Contains "1" "3" := by decide
    exact (Relation.ReflTransGen.single h01).tail h13
  · intro h2
    rcases (hmem "2").1 h2 with heq | ⟨-, hchild⟩
    · exact absurd heq (by decide)
    · exact absurd hchild (by decide)

end Tree
end ApiPages

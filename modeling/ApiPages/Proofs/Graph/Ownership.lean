import ApiPages.Graph.Link
import ApiPages.Proofs.Graph.Reachability

/-!
# Where items are documented

An item is documented by the modules of a tree that list it.  What a tree says of an id is what the
index says of it, since each module of the tree is read off the index.

* `Index.Describes` ties a module to the index it was read from; `Walk.describes_step` keeps it over
  one step and `Tree.describes` says it of a whole tree;
* `Index.mem_entries_iff` and `Index.exists_entry_iff` turn entries back into listed ids;
* `Tree.owner?_isSome_iff` says which ids have an owner, `Tree.owner?_eq_some` what the owner is.
-/

namespace ApiPages

namespace Index

/-- The module is what is read from the item with its id, below some path. -/
def Describes (idx : Index) (root : ItemId) (m : Module) : Prop :=
  ∃ it above, idx.lookup? m.id = some it ∧ m = idx.moduleAt m.id it above (m.id == root)

/-- The id names an item of a recognised kind that is no module. -/
def IsLeaf (idx : Index) (id : ItemId) : Prop :=
  ∃ k, idx.kind? id = some k ∧ k ≠ .module

/-! ## Entries -/

theorem entryOf?_eq_some {idx : Index} {id : ItemId} {e : Entry} (h : idx.entryOf? id = some e) :
    e.id = id ∧ ∃ it k, idx.lookup? id = some it ∧ it.kind? = some k ∧
      e =
        { id, name := it.name, docs := it.docs, links := it.links, detail := idx.detail it k } := by
  cases hit : idx.lookup? id with
  | none =>
      simp [entryOf?, hit] at h
  | some it =>
      cases hk : it.kind? with
      | none =>
          simp [entryOf?, hit, hk] at h
      | some k =>
          simp only [entryOf?, hit, hk, Option.bind_eq_bind, Option.bind_some, Option.pure_def,
            Option.some.injEq] at h
          exact ⟨h ▸ rfl, it, k, rfl, hk, h.symm⟩

theorem mem_entries_iff {idx : Index} {root : ItemId} {m : Module} (h : idx.Describes root m)
    (e : Entry) : e ∈ m.entries ↔ e.id ∈ idx.listedBy m.id ∧ idx.entryOf? e.id = some e := by
  rcases h with ⟨it, above, hit, hm⟩
  have hentries : m.entries = (idx.listedBy m.id).filterMap idx.entryOf? := by
    rw [listedBy_of_lookup hit]
    exact congrArg Module.entries hm
  rw [hentries, List.mem_filterMap]
  constructor
  · rintro ⟨id, hid, he⟩
    have heq := (entryOf?_eq_some he).1
    exact ⟨heq ▸ hid, heq ▸ he⟩
  · rintro ⟨hid, he⟩
    exact ⟨e.id, hid, he⟩

/-- The entries of a module other than submodules are those of the leaves it lists. -/
theorem exists_entry_iff {idx : Index} {root : ItemId} {m : Module} (h : idx.Describes root m)
    (id : ItemId) : (∃ e ∈ m.entries, e.detail ≠ .module ∧ e.id = id) ↔
      id ∈ idx.listedBy m.id ∧ idx.IsLeaf id := by
  constructor
  · rintro ⟨e, he, hdetail, rfl⟩
    rcases (mem_entries_iff h e).1 he with ⟨hlisted, hentry⟩
    rcases (entryOf?_eq_some hentry).2 with ⟨it, k, hit, hk, heq⟩
    have hkind : idx.kind? e.id = some k := by
      rw [Index.kind?, hit]
      exact hk
    refine ⟨hlisted, k, hkind, ?_⟩
    intro hmodule
    apply hdetail
    rw [heq]
    exact (detail_eq_module_iff idx it k).2 hmodule
  · rintro ⟨hlisted, k, hkind, hk⟩
    have hsome : (idx.entryOf? id).isSome = true := by
      rw [entryOf?_isSome, hkind]
      rfl
    rcases Option.isSome_iff_exists.1 hsome with ⟨e, he⟩
    rcases entryOf?_eq_some he with ⟨rfl, it, k', hit, hk', heq⟩
    refine ⟨e, (mem_entries_iff h e).2 ⟨hlisted, he⟩, ?_, rfl⟩
    -- the kind of the entry's item is the kind of its id
    have hkk : k' = k := by
      rw [Index.kind?, hit] at hkind
      exact Option.some.inj (hk'.symm.trans hkind)
    intro hdetail
    rw [heq] at hdetail
    exact hk (hkk ▸ (detail_eq_module_iff idx it k').1 hdetail)

end Index

/-! ## Modules of a walk -/

namespace Walk

theorem describes_step {idx : Index} {root : ItemId} {w : Walk}
    (h : ∀ m ∈ w.modules, idx.Describes root m) :
    ∀ m ∈ (w.step idx root).modules, idx.Describes root m := by
  cases hq : w.queue with
  | nil =>
      rw [step_of_queue_nil idx root hq]
      exact h
  | cons head queue =>
      rcases head with ⟨id, above⟩
      cases hit : idx.lookup? id with
      | none =>
          -- an id that cannot be looked up is dropped from the queue
          have hsame : (w.step idx root).modules = w.modules := by
            simp only [step, hq, hit]
          rw [hsame]
          exact h
      | some it =>
          rw [step_of_lookup hq hit]
          intro m hm
          rcases List.mem_append.1 hm with hold | hnew
          · exact h m hold
          · by_cases hkeep : keeps idx root id
            · rw [if_pos hkeep, List.mem_singleton] at hnew
              subst hnew
              exact ⟨it, above, hit, rfl⟩
            · rw [if_neg hkeep] at hnew
              cases hnew

theorem describes_ofRoot (idx : Index) (root : ItemId) :
    ∀ m ∈ (ofRoot idx root).modules, idx.Describes root m := by
  rw [ofRoot, run_eq_iterate]
  have hinitial : ∀ m ∈ (initial root).modules, idx.Describes root m := by
    intro m hm
    cases hm
  exact Function.Iterate.rec (fun w : Walk => ∀ m ∈ w.modules, idx.Describes root m) hinitial
    (fun _ h => describes_step h) _

end Walk

/-! ## Trees -/

namespace Tree

theorem ofIndex_eq (idx : Index) (mode : Mode) (root : ItemId) :
    ofIndex idx mode root =
      match idx.lookup? (idx.rootFor root) with
      | none => .error (.missingRoot (idx.rootFor root))
      | some it =>
          if it.kind? == some .module then
            .ok
              { mode, index := idx
                modules := (Walk.ofRoot idx (idx.rootFor root)).modules
                dangling := firsts (Walk.ofRoot idx (idx.rootFor root)).missing }
          else .error (.rootNotModule (idx.rootFor root)) :=
  rfl

theorem eq_of_ofIndex {idx : Index} {mode : Mode} {root : ItemId} {t : Tree}
    (h : ofIndex idx mode root = .ok t) :
    idx.kind? (idx.rootFor root) = some .module ∧ t.mode = mode ∧ t.index = idx ∧
      t.modules = (Walk.ofRoot idx (idx.rootFor root)).modules := by
  have hroot : idx.kind? (idx.rootFor root) = some .module := by
    rw [ofIndex_eq] at h
    cases hit : idx.lookup? (idx.rootFor root) with
    | none =>
        rw [hit] at h
        cases h
    | some it =>
        by_cases hk : it.kind? = some .module
        · rw [Index.kind?, hit]
          exact hk
        · have hne : (it.kind? == some .module) = false := by simpa using hk
          simp [hit, hne] at h
  rw [ofIndex_of_module_root mode hroot] at h
  cases h
  exact ⟨hroot, rfl, rfl, rfl⟩

theorem describes {idx : Index} {mode : Mode} {root : ItemId} {t : Tree}
    (h : ofIndex idx mode root = .ok t) :
    ∀ m ∈ t.modules, idx.Describes (idx.rootFor root) m := by
  rw [(eq_of_ofIndex h).2.2.2]
  exact Walk.describes_ofRoot idx (idx.rootFor root)

/-- A module of a tree is found by its id. -/
theorem find?_of_mem {idx : Index} {mode : Mode} {root : ItemId} {t : Tree}
    (h : ofIndex idx mode root = .ok t) {m : Module} (hm : m ∈ t.modules) :
    t.modules.find? (·.id == m.id) = some m := by
  rcases eq_of_ofIndex h with ⟨hroot, -, -, hmodules⟩
  have hnodup : (t.modules.map Module.id).Nodup := by
    rcases Walk.progress_ofRoot hroot with ⟨done, hprogress, hempty⟩
    rw [hmodules, hprogress.modules, ← hprogress.visited_eq hempty]
    exact hprogress.nodup.filter _
  rcases List.append_of_mem hm with ⟨before, after, hsplit⟩
  refine List.find?_eq_some_iff_append.2 ⟨BEq.rfl, before, after, hsplit, ?_⟩
  intro m' hm'
  rw [hsplit, List.map_append, List.nodup_append] at hnodup
  have hne : m'.id ≠ m.id :=
    hnodup.2.2 m'.id (List.mem_map_of_mem hm') m.id (List.mem_cons_self ..)
  simpa using hne

/-! ## Owners -/

theorem mem_owned_iff {m : Module} {id : ItemId} {target : LinkTarget} :
    (id, target) ∈ m.owned ↔
      (∃ e ∈ m.entries, e.detail ≠ .module ∧ e.id = id ∧ target = .internal m.id e.name) ∨
        (m.id = id ∧ target = .internal m.id "") := by
  rw [Module.owned, List.mem_append, List.mem_filterMap, List.mem_singleton, Prod.mk.injEq]
  refine or_congr (exists_congr fun e => and_congr_right fun _ => ?_) ?_
  · cases e.detail with
    | module =>
        simp
    | _ =>
        simp [eq_comm]
  · rw [eq_comm (a := id)]

/-- The ids with an owner are the modules of the tree and the leaves they list. -/
theorem owner?_isSome_iff {idx : Index} {mode : Mode} {root : ItemId} {t : Tree}
    (h : ofIndex idx mode root = .ok t) (id : ItemId) :
    (t.owner? id).isSome = true ↔ id ∈ t.modules.map Module.id ∨
      ∃ m ∈ t.modules, id ∈ idx.listedBy m.id ∧ idx.IsLeaf id := by
  have howned : (t.owner? id).isSome = true ↔
      ∃ m ∈ t.modules, ∃ target, (id, target) ∈ m.owned := by
    rw [owner?, List.lookup_isSome_iff]
    constructor
    · rintro ⟨⟨id', target⟩, hmem, heq⟩
      rcases List.mem_flatMap.1 (List.mem_reverse.1 hmem) with ⟨m, hm, howned⟩
      exact ⟨m, hm, target, eq_of_beq heq ▸ howned⟩
    · rintro ⟨m, hm, target, howned⟩
      exact ⟨(id, target), List.mem_reverse.2 (List.mem_flatMap.2 ⟨m, hm, howned⟩), BEq.rfl⟩
  rw [howned]
  constructor
  · rintro ⟨m, hm, target, hmem⟩
    rcases mem_owned_iff.1 hmem with ⟨e, he, hdetail, hid, -⟩ | ⟨hid, -⟩
    · exact Or.inr ⟨m, hm, (Index.exists_entry_iff (describes h m hm) id).1 ⟨e, he, hdetail, hid⟩⟩
    · exact Or.inl (hid ▸ List.mem_map_of_mem hm)
  · rintro (hid | ⟨m, hm, hleaf⟩)
    · rcases List.mem_map.1 hid with ⟨m, hm, rfl⟩
      exact ⟨m, hm, _, mem_owned_iff.2 (Or.inr ⟨rfl, rfl⟩)⟩
    · rcases (Index.exists_entry_iff (describes h m hm) id).2 hleaf with ⟨e, he, hdetail, hid⟩
      exact ⟨m, hm, _, mem_owned_iff.2 (Or.inl ⟨e, he, hdetail, hid, rfl⟩)⟩

/-- An owner is a module of the tree, with the name of one of its entries or without a name. -/
theorem owner?_eq_some {t : Tree} {id : ItemId} {target : LinkTarget}
    (h : t.owner? id = some target) :
    ∃ m ∈ t.modules, ∃ item, target = .internal m.id item ∧
      (item = "" ∨ ∃ e ∈ m.entries, e.detail ≠ .module ∧ e.name = item) := by
  rcases List.lookup_eq_some_iff.1 h with ⟨later, earlier, hsplit, -⟩
  have hmem : (id, target) ∈ t.modules.flatMap Module.owned := by
    rw [← List.mem_reverse, hsplit]
    exact List.mem_append_right _ (List.mem_cons_self ..)
  rcases List.mem_flatMap.1 hmem with ⟨m, hm, howned⟩
  rcases mem_owned_iff.1 howned with ⟨e, he, hdetail, -, htarget⟩ | ⟨-, htarget⟩
  · exact ⟨m, hm, e.name, htarget, Or.inr ⟨e, he, hdetail, rfl⟩⟩
  · exact ⟨m, hm, "", htarget, Or.inl rfl⟩

/-- A link stays inside the tree exactly when its id has an owner. -/
theorem resolve?_internal_iff {t : Tree} {id m : ItemId} {item : String} :
    t.resolve? id = some (.internal m item) ↔ t.owner? id = some (.internal m item) := by
  cases howner : t.owner? id with
  | some target =>
      simp only [resolve?, howner]
  | none =>
      -- without an owner the link leads to another crate, if anywhere
      simp only [resolve?, howner]
      cases t.index.summary? id with
      | none =>
          simp
      | some s =>
          by_cases hown : s.crateId = 0
          · simp [hown]
          · simp [hown]

end Tree
end ApiPages

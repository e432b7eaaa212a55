import ApiPages.Graph.Tree
import Mathlib.Data.List.Nodup
import Mathlib.Logic.Function.Iterate

/-!
# One step of the walk

What `Walk.step` does to the queue, the visited ids and the modules, said once and without the fold
that adds the submodules.

* `Walk.fresh` are the ids that a fold over `ids` adds, each once; `Walk.enqueue_eq` puts it in
  place of the fold;
* `Index.submodulesOf` and `Index.hasChild` are the module graph and the test for an empty module,
  read off the index alone;
* `Walk.step_of_lookup` is the step in these terms.  A module without entries has no submodules, so
  leaving it out and taking it differ in the list of modules only;
* `Walk.run_eq_iterate` turns the bounded loop into plain iteration of the step.
-/

namespace ApiPages

/-! ## The module graph -/

namespace Index

/-- The ids that the item with the given id lists as a module. -/
def listedBy (idx : Index) (id : ItemId) : List ItemId :=
  ((idx.lookup? id).map Item.listedIds).getD []

/-- The listed ids that are modules themselves, with repetitions. -/
def submodulesOf (idx : Index) (id : ItemId) : List ItemId :=
  (idx.listedBy id).filter fun child => idx.kind? child == some .module

/-- Whether a listed id is an item of a recognised kind. -/
def hasChild (idx : Index) (id : ItemId) : Bool :=
  (idx.listedBy id).any fun child => (idx.kind? child).isSome

theorem listedBy_of_lookup {idx : Index} {id : ItemId} {it : Item} (h : idx.lookup? id = some it) :
    idx.listedBy id = it.listedIds := by
  simp [listedBy, h]

theorem entryOf?_isSome (idx : Index) (id : ItemId) :
    (idx.entryOf? id).isSome = (idx.kind? id).isSome := by
  cases hit : idx.lookup? id with
  | none =>
      simp [entryOf?, Index.kind?, hit]
  | some it =>
      cases hk : it.kind? with
      | none =>
          simp [entryOf?, Index.kind?, hit, hk]
      | some k =>
          simp [entryOf?, Index.kind?, hit, hk]

/-- Only modules have the detail of a module. -/
theorem detail_eq_module_iff (idx : Index) (it : Item) (k : Kind) :
    idx.detail it k = .module ↔ k = .module := by
  cases k with
  | module =>
      simp [detail]
  -- four kinds look into the payload first, and whatever they find there is no module
  | function =>
      cases hs : TypeExpr.signature? (it.payload? "function") <;>
        simp [detail, Item.functionDetail, hs]
  | constant =>
      cases hc : (it.payload? "constant").bind (Json.record {} Item.ConstantShape.put) <;>
        simp [detail, Item.constantDetail, hc]
  | typeAlias =>
      cases ha : (it.payload? Kind.typeAlias.key).bind Item.typeUnder? <;>
        simp [detail, Item.aliasDetail, ha]
  | typedef =>
      cases ha : (it.payload? Kind.typedef.key).bind Item.typeUnder? <;>
        simp [detail, Item.aliasDetail, ha]
  | _ =>
      simp [detail]

/-- The entries of a module are there exactly when a listed id is of a recognised kind. -/
theorem entries_moduleAt_isEmpty {idx : Index} {id : ItemId} {it : Item}
    (h : idx.lookup? id = some it) (above : List String) (isRoot : Bool) :
    (idx.moduleAt id it above isRoot).entries.isEmpty = !idx.hasChild id := by
  rw [hasChild, listedBy_of_lookup h]
  show (it.listedIds.filterMap idx.entryOf?).isEmpty = _
  -- both sides walk over the listed ids, and they agree at each of them
  induction it.listedIds with
  | nil =>
      rfl
  | cons child rest ih =>
      have hsome := entryOf?_isSome idx child
      cases he : idx.entryOf? child with
      | none =>
          rw [he] at hsome
          simpa [List.filterMap_cons, he, ← hsome] using ih
      | some e =>
          rw [he] at hsome
          simp [he, ← hsome]

/-- The entry of a listed id counts as a submodule exactly when the id is a module. -/
theorem entryOf?_bind_module (idx : Index) (child : ItemId) :
    ((idx.entryOf? child).bind fun e =>
        match e.detail with
        | .module => some e.id
        | _ => none) =
      Option.guard (fun child => idx.kind? child == some .module) child := by
  cases hit : idx.lookup? child with
  | none =>
      simp [entryOf?, Index.kind?, hit, Option.guard]
  | some it =>
      cases hk : it.kind? with
      | none =>
          simp [entryOf?, Index.kind?, hit, hk, Option.guard]
      | some k =>
          -- the detail of an entry tells its kind only as far as modules go
          have hd := detail_eq_module_iff idx it k
          by_cases hm : k = .module
          · subst hm
            simp [entryOf?, Index.kind?, hit, hk, hd.2 rfl, Option.guard]
          · have hne : idx.detail it k ≠ .module := fun h => hm (hd.1 h)
            simp only [entryOf?, Index.kind?, hit, hk, Option.bind_eq_bind, Option.bind_some,
              Option.pure_def, Option.guard]
            cases hdet : idx.detail it k with
            | module =>
                exact absurd hdet hne
            | _ =>
                simp [hm]

theorem submodules_moduleAt {idx : Index} {id : ItemId} {it : Item}
    (h : idx.lookup? id = some it) (above : List String) (isRoot : Bool) :
    (idx.moduleAt id it above isRoot).submodules = idx.submodulesOf id := by
  rw [submodulesOf, listedBy_of_lookup h, ← List.filterMap_eq_filter]
  show (it.listedIds.filterMap idx.entryOf?).filterMap _ = _
  rw [List.filterMap_filterMap]
  exact congrArg (List.filterMap · it.listedIds) (funext (entryOf?_bind_module idx))

/-- A module without entries has no submodules. -/
theorem submodulesOf_eq_nil {idx : Index} {id : ItemId} (h : idx.hasChild id = false) :
    idx.submodulesOf id = [] := by
  rw [submodulesOf, List.filter_eq_nil_iff]
  intro child hchild hmodule
  have hnone : (idx.kind? child).isSome = false := by
    simpa using List.any_eq_false.1 h child hchild
  simp [eq_of_beq hmodule] at hnone

end Index

/-! ## The queue -/

namespace Walk

/-- The ids that are not visited yet, each once and in order. -/
def fresh (visited : List ItemId) : List ItemId → List ItemId
  | [] => []
  | id :: ids =>
      if visited.contains id then fresh visited ids else id :: fresh (visited ++ [id]) ids

theorem enqueue_eq (w : Walk) (path : List String) (ids : List ItemId) :
    w.enqueue path ids =
      { w with
        queue := w.queue ++ (fresh w.visited ids).map fun id => (id, path)
        visited := w.visited ++ fresh w.visited ids } := by
  induction ids generalizing w with
  | nil =>
      simp [enqueue, fresh]
  | cons id ids ih =>
      by_cases hv : w.visited.contains id
      -- the fold and `fresh` skip the same ids, and otherwise visit the id before the rest
      · have hskip : w.enqueue path (id :: ids) = w.enqueue path ids := by
          simp only [enqueue, List.foldl_cons, hv, if_true]
        rw [hskip, ih, fresh, if_pos hv]
      · have htake : w.enqueue path (id :: ids) =
            { w with
              queue := w.queue ++ [(id, path)]
              visited := w.visited ++ [id] }.enqueue path ids := by
          simp only [enqueue, List.foldl_cons, hv, Bool.false_eq_true, if_false]
        rw [htake, ih, fresh, if_neg hv]
        simp

theorem mem_fresh_iff {visited ids : List ItemId} {id : ItemId} :
    id ∈ fresh visited ids ↔ id ∈ ids ∧ id ∉ visited := by
  induction ids generalizing visited with
  | nil =>
      simp [fresh]
  | cons a ids ih =>
      by_cases hv : visited.contains a
      · have ha : a ∈ visited := by simpa using hv
        rw [fresh, if_pos hv, ih, List.mem_cons]
        constructor
        · rintro ⟨hid, hnew⟩
          exact ⟨Or.inr hid, hnew⟩
        · rintro ⟨rfl | hid, hnew⟩
          · exact absurd ha hnew
          · exact ⟨hid, hnew⟩
      · have ha : a ∉ visited := by simpa using hv
        rw [fresh, if_neg hv, List.mem_cons, ih, List.mem_cons, List.mem_append, List.mem_singleton]
        constructor
        · rintro (rfl | ⟨hid, hnew⟩)
          · exact ⟨Or.inl rfl, ha⟩
          · exact ⟨Or.inr hid, fun h => hnew (Or.inl h)⟩
        · rintro ⟨hid, hnew⟩
          -- the id may be the one taken now, and then the rest does not add it again
          by_cases heq : id = a
          · exact Or.inl heq
          · refine Or.inr ⟨hid.resolve_left heq, ?_⟩
            rintro (h | h)
            · exact hnew h
            · exact heq h

theorem nodup_append_fresh {visited : List ItemId} (ids : List ItemId) (h : visited.Nodup) :
    (visited ++ fresh visited ids).Nodup := by
  induction ids generalizing visited with
  | nil =>
      simpa [fresh] using h
  | cons a ids ih =>
      by_cases hv : visited.contains a
      · rw [fresh, if_pos hv]
        exact ih h
      · have ha : a ∉ visited := by simpa using hv
        have hcons : (visited ++ [a]).Nodup := by
          rw [← List.concat_eq_append]
          exact h.concat ha
        -- the rest is added to a list that already ends in the new id
        rw [fresh, if_neg hv]
        simpa using ih hcons

/-! ## One step -/

/-- The walk before its first step. -/
def initial (root : ItemId) : Walk :=
  { queue := [(root, [])], visited := [root] }

/-- Whether the module with the given id is taken into the tree once it is reached. -/
def keeps (idx : Index) (root id : ItemId) : Bool :=
  id == root || idx.hasChild id

theorem step_of_queue_nil (idx : Index) (root : ItemId) {w : Walk} (h : w.queue = []) :
    w.step idx root = w := by
  simp [step, h]

/-- A step that finds its item: the submodules not met before are queued, and the module is added
unless it is empty. -/
theorem step_of_lookup {idx : Index} {root id : ItemId} {w : Walk} {above : List String}
    {queue : List (ItemId × List String)} {it : Item}
    (hq : w.queue = (id, above) :: queue) (hit : idx.lookup? id = some it) :
    w.step idx root =
      { queue := queue ++
          (fresh w.visited (idx.submodulesOf id)).map fun sub => (sub, above ++ [it.name])
        visited := w.visited ++ fresh w.visited (idx.submodulesOf id)
        modules := w.modules ++
          if keeps idx root id then [idx.moduleAt id it above (id == root)] else []
        missing := w.missing ++ it.listedIds.flatMap idx.missing } := by
  have hempty := Index.entries_moduleAt_isEmpty hit above (id == root)
  have hsub := Index.submodules_moduleAt hit above (id == root)
  have hroot : (idx.moduleAt id it above (id == root)).isRoot = (id == root) := rfl
  have hpath : (idx.moduleAt id it above (id == root)).path = above ++ [it.name] := rfl
  simp only [step, hq, hit, hempty, hroot]
  cases hkeep : keeps idx root id with
  | true =>
      -- the source tests for the opposite: no entries, and not the root
      have hcond : (!idx.hasChild id && !(id == root)) = false := by
        rw [keeps, Bool.or_eq_true] at hkeep
        rcases hkeep with hr | hc
        · simp [hr]
        · simp [hc]
      simp only [hcond, Bool.false_eq_true, if_false, if_true, enqueue_eq, hsub, hpath]
  | false =>
      -- an empty module is left out, and there is nothing below it to be queued
      rw [keeps, Bool.or_eq_false_iff] at hkeep
      have hnil := Index.submodulesOf_eq_nil hkeep.2
      simp [hkeep.1, hkeep.2, hnil, fresh]

/-- A step past the end of the queue changes nothing, so the bounded loop is plain iteration. -/
theorem run_eq_iterate (idx : Index) (root : ItemId) (fuel : Nat) (w : Walk) :
    run idx root fuel w = (step idx root)^[fuel] w := by
  induction fuel generalizing w with
  | zero =>
      rfl
  | succ fuel ih =>
      rw [run, Function.iterate_succ_apply]
      split
      · next hq =>
          -- the loop stops here, and the steps that plain iteration still takes do nothing
          have hnil : w.queue = [] := by simpa using hq
          have hfix := step_of_queue_nil idx root hnil
          rw [hfix, Function.iterate_fixed hfix]
      · exact ih (w.step idx root)

end Walk
end ApiPages

import ApiPages.Proofs.Graph.Ownership

/-!
# Modules stand under shortest paths

A module that is listed in several places is taken where it is met first, and since modules are read
breadth first, no other way to it is shorter.

* `Index.Chain` is a way through the module graph with all modules on it;
* `Walk.Layered` is the invariant: paths in the queue differ by at most one name and are sorted by
  their lengths, and what a module that was read contains stands at most one name below it;
* `Walk.Layered.step` keeps it over one step, `Walk.layered_ofRoot` has it at the end, where
  `Walk.Layered.length_le` compares the paths with all chains;
* `Tree.path_shortest` says it of the modules of a tree.
-/

namespace ApiPages

namespace Index

/-- The name of the item with the given id. -/
def nameOf (idx : Index) (id : ItemId) : String :=
  ((idx.lookup? id).map Item.name).getD ""

/-- A row of modules, each listed by the one before it, from one id to another. -/
inductive Chain (idx : Index) (root : ItemId) : ItemId → List ItemId → Prop where
  | root : Chain idx root root [root]
  | child {parent child : ItemId} {ids : List ItemId} :
      Chain idx root parent ids → idx.Contains parent child → Chain idx root child (ids ++ [child])

theorem nameOf_of_lookup {idx : Index} {id : ItemId} {it : Item} (h : idx.lookup? id = some it) :
    idx.nameOf id = it.name := by
  simp [nameOf, h]

theorem Chain.reaches {idx : Index} {root id : ItemId} {ids : List ItemId}
    (h : idx.Chain root id ids) : ∀ a ∈ ids, idx.Reaches root a := by
  have hboth : idx.Reaches root id ∧ ∀ a ∈ ids, idx.Reaches root a := by
    induction h with
    | root =>
        refine ⟨Relation.ReflTransGen.refl, fun a ha => ?_⟩
        rw [List.mem_singleton.1 ha]
        exact Relation.ReflTransGen.refl
    | child _ hedge ih =>
        have hchild := ih.1.tail hedge
        refine ⟨hchild, fun a ha => ?_⟩
        rcases List.mem_append.1 ha with ha | ha
        · exact ih.2 a ha
        · rw [List.mem_singleton.1 ha]
          exact hchild
  exact hboth.2

theorem hasChild_of_contains {idx : Index} {a b : ItemId} (h : idx.Contains a b) :
    idx.hasChild a = true := by
  rw [hasChild, List.any_eq_true]
  exact ⟨b, h.2.1, by rw [h.2.2, Option.isSome_some]⟩

/-- Every module on the way lists the next one. -/
theorem Chain.hasChild {idx : Index} {root id next : ItemId} {ids : List ItemId}
    (h : idx.Chain root id ids) (hedge : idx.Contains id next) :
    ∀ a ∈ ids, idx.hasChild a = true := by
  induction h generalizing next with
  | root =>
      intro a ha
      rw [List.mem_singleton.1 ha]
      exact hasChild_of_contains hedge
  | child _ hparent ih =>
      intro a ha
      rcases List.mem_append.1 ha with ha | ha
      · exact ih hparent a ha
      · rw [List.mem_singleton.1 ha]
        exact hasChild_of_contains hedge

theorem Chain.eq_cons {idx : Index} {root id : ItemId} {ids : List ItemId}
    (h : idx.Chain root id ids) : ∃ rest, ids = root :: rest := by
  induction h with
  | root =>
      exact ⟨[], rfl⟩
  | @child _ child _ _ _ ih =>
      rcases ih with ⟨rest, rfl⟩
      exact ⟨rest ++ [child], rfl⟩

end Index

namespace Walk

/-! ## The invariant -/

/-- The state of a walk after the entries in `done` have left the queue.  An entry is the id of a
module with the path above it. -/
structure Layered (idx : Index) (root : ItemId) (done : List (ItemId × List String)) (w : Walk) :
    Prop
    extends Progress idx root (done.map Prod.fst) w where
  start : (root, []) ∈ done ++ w.queue
  named : ∀ q ∈ done ++ w.queue,
    ∃ ids, idx.Chain root q.1 ids ∧ q.2 ++ [idx.nameOf q.1] = ids.map idx.nameOf
  sorted : (done ++ w.queue).Pairwise fun p q => p.2.length ≤ q.2.length
  narrow : ∀ p ∈ w.queue, ∀ q ∈ w.queue, q.2.length ≤ p.2.length + 1
  below : ∀ p ∈ done, ∀ b, idx.Contains p.1 b →
    ∃ q ∈ done ++ w.queue, q.1 = b ∧ q.2.length ≤ p.2.length + 1
  taken : w.modules.map (fun m => (m.id, m.path)) =
    (done.filter fun q => keeps idx root q.1).map fun q => (q.1, q.2 ++ [idx.nameOf q.1])

variable {idx : Index} {root id : ItemId} {done : List (ItemId × List String)} {w : Walk}
  {above : List String} {queue : List (ItemId × List String)}

theorem layered_initial (idx : Index) (root : ItemId) : Layered idx root [] (initial root) where
  toProgress := progress_initial idx root
  start := List.mem_singleton_self _
  named := by
    intro q hq
    rw [List.mem_singleton.1 hq]
    exact ⟨[root], .root, rfl⟩
  sorted := List.pairwise_singleton _ _
  narrow := by
    intro p hp q hq
    rw [List.mem_singleton.1 hp, List.mem_singleton.1 hq]
    exact Nat.le_succ _
  below := by
    intro p hp
    cases hp
  taken := rfl

/-- Every entry stands at most one name below the one in front of the queue. -/
theorem Layered.le_front (h : Layered idx root done w) (hq : w.queue = (id, above) :: queue) :
    ∀ q ∈ done ++ w.queue, q.2.length ≤ above.length + 1 := by
  intro q hmem
  have hfront : (id, above) ∈ w.queue := hq ▸ List.mem_cons_self ..
  rcases List.mem_append.1 hmem with hdone | hwaiting
  · -- what was read earlier stands no lower than what waits
    exact Nat.le_succ_of_le ((List.pairwise_append.1 h.sorted).2.2 q hdone (id, above) hfront)
  · exact h.narrow (id, above) hfront q hwaiting

/-- No entry that waits stands above the one in front of the queue. -/
theorem Layered.front_le (h : Layered idx root done w) (hq : w.queue = (id, above) :: queue) :
    ∀ q ∈ queue, above.length ≤ q.2.length := by
  have hwaiting := (List.pairwise_append.1 h.sorted).2.1
  rw [hq, List.pairwise_cons] at hwaiting
  exact hwaiting.1

/-! ## One step -/

/-- The entries that are queued when a module is read. -/
def entriesBelow (idx : Index) (w : Walk) (id : ItemId) (above : List String) :
    List (ItemId × List String) :=
  (fresh w.visited (idx.submodulesOf id)).map fun sub => (sub, above ++ [idx.nameOf id])

theorem queue_step (hq : w.queue = (id, above) :: queue) (hkind : idx.kind? id = some .module) :
    (w.step idx root).queue = queue ++ entriesBelow idx w id above := by
  rcases Index.exists_lookup_of_kind hkind with ⟨it, hit⟩
  rw [step_of_lookup hq hit, entriesBelow, Index.nameOf_of_lookup hit]

/-- What is queued is contained in the module that is read and was not met before. -/
theorem mem_entriesBelow_iff (hkind : idx.kind? id = some .module) {q : ItemId × List String} :
    q ∈ entriesBelow idx w id above ↔
      idx.Contains id q.1 ∧ q.1 ∉ w.visited ∧ q.2 = above ++ [idx.nameOf id] := by
  rw [entriesBelow, List.mem_map, Index.contains_iff_mem_submodulesOf hkind]
  constructor
  · rintro ⟨sub, hsub, rfl⟩
    exact ⟨(mem_fresh_iff.1 hsub).1, (mem_fresh_iff.1 hsub).2, rfl⟩
  · rintro ⟨hsub, hnew, habove⟩
    exact ⟨q.1, mem_fresh_iff.2 ⟨hsub, hnew⟩, Prod.ext rfl habove.symm⟩

theorem length_of_mem_entriesBelow (hkind : idx.kind? id = some .module)
    {q : ItemId × List String} (h : q ∈ entriesBelow idx w id above) :
    q.2.length = above.length + 1 := by
  rw [((mem_entriesBelow_iff hkind).1 h).2.2, List.length_append, List.length_singleton]

theorem Layered.step (h : Layered idx root done w) (hroot : idx.kind? root = some .module)
    (hq : w.queue = (id, above) :: queue) :
    Layered idx root (done ++ [(id, above)]) (w.step idx root) := by
  have hmem : (id, above) ∈ done ++ w.queue := List.mem_append_right _ (hq ▸ List.mem_cons_self ..)
  have hid : id ∈ w.visited := by
    rw [h.visited, ← List.map_append]
    exact List.mem_map_of_mem hmem
  have hkind : idx.kind? id = some .module := (h.reaches id hid).kind hroot
  have hqueue : (w.step idx root).queue = queue ++ entriesBelow idx w id above :=
    queue_step hq hkind
  -- the entries after the step are those before it and the ones that are queued
  have hall : done ++ [(id, above)] ++ (w.step idx root).queue =
      done ++ w.queue ++ entriesBelow idx w id above := by
    rw [hqueue, hq]
    simp
  have hfront := h.le_front hq
  have hback := h.front_le hq
  have hlength : ∀ q ∈ entriesBelow idx w id above, q.2.length = above.length + 1 :=
    fun q => length_of_mem_entriesBelow hkind
  constructor
  case toProgress =>
    rw [List.map_append, List.map_singleton]
    exact h.toProgress.step hroot hq
  case start =>
    rw [hall]
    exact List.mem_append_left _ h.start
  case named =>
    intro q hq'
    rw [hall] at hq'
    rcases List.mem_append.1 hq' with hold | hnew
    · exact h.named q hold
    · -- the chain to a new module goes through the module that was read
      rcases h.named (id, above) hmem with ⟨ids, hchain, hpath⟩
      rcases (mem_entriesBelow_iff hkind).1 hnew with ⟨hedge, -, habove⟩
      refine ⟨ids ++ [q.1], hchain.child hedge, ?_⟩
      rw [habove, hpath, List.map_append, List.map_singleton]
  case sorted =>
    rw [hall]
    refine List.pairwise_append.2 ⟨h.sorted, ?_, ?_⟩
    · refine List.pairwise_of_forall_mem_list fun p hp q hq' => ?_
      exact Nat.le_of_eq ((hlength p hp).trans (hlength q hq').symm)
    · intro p hp q hq'
      rw [hlength q hq']
      exact hfront p hp
  case narrow =>
    intro p hp q hq'
    rw [hqueue] at hp hq'
    have hlow : above.length ≤ p.2.length := by
      rcases List.mem_append.1 hp with hold | hnew
      · exact hback p hold
      · rw [hlength p hnew]
        exact Nat.le_succ _
    have hhigh : q.2.length ≤ above.length + 1 := by
      rcases List.mem_append.1 hq' with hold | hnew
      · exact hfront q (List.mem_append_right _ (hq ▸ List.mem_cons_of_mem _ hold))
      · exact Nat.le_of_eq (hlength q hnew)
    exact Nat.le_trans hhigh (Nat.succ_le_succ hlow)
  case below =>
    intro p hp b hedge
    rw [hall]
    rcases List.mem_append.1 hp with hold | hlast
    · rcases h.below p hold b hedge with ⟨q, hq', hqb, hle⟩
      exact ⟨q, List.mem_append_left _ hq', hqb, hle⟩
    · rw [List.mem_singleton.1 hlast] at hedge ⊢
      by_cases hseen : b ∈ w.visited
      · -- met before, so its entry is no lower than the last one in the queue
        rw [h.visited, ← List.map_append] at hseen
        rcases List.mem_map.1 hseen with ⟨q, hq', hqb⟩
        exact ⟨q, List.mem_append_left _ hq', hqb, hfront q hq'⟩
      · have hnew : (b, above ++ [idx.nameOf id]) ∈ entriesBelow idx w id above :=
          (mem_entriesBelow_iff hkind).2 ⟨hedge, hseen, rfl⟩
        exact ⟨_, List.mem_append_right _ hnew, rfl, Nat.le_of_eq (hlength _ hnew)⟩
  case taken =>
    rcases Index.exists_lookup_of_kind hkind with ⟨it, hit⟩
    rw [step_of_lookup hq hit, List.map_append, h.taken, List.filter_append, List.map_append]
    congr 1
    rw [List.filter_singleton]
    cases keeps idx root id with
    | true =>
        simp [Index.moduleAt, Index.nameOf_of_lookup hit]
    | false =>
        rfl

/-! ## Whole walks -/

/-- What holds at the beginning and is kept whenever an entry leaves the queue holds at the end. -/
theorem ofRoot_induction {P : Walk → Prop} (hinitial : P (initial root))
    (hstep : ∀ w id above queue, P w → w.queue = (id, above) :: queue → P (w.step idx root)) :
    P (ofRoot idx root) := by
  rw [ofRoot, run_eq_iterate]
  refine Function.Iterate.rec P hinitial (fun w h => ?_) _
  cases hq : w.queue with
  | nil =>
      rw [step_of_queue_nil idx root hq]
      exact h
  | cons head queue =>
      exact hstep w head.1 head.2 queue h hq

theorem layered_ofRoot (hroot : idx.kind? root = some .module) :
    (ofRoot idx root).queue = [] ∧ ∃ done, Layered idx root done (ofRoot idx root) := by
  rcases progress_ofRoot hroot with ⟨-, -, hempty⟩
  have hinitial : ∃ done, Layered idx root done (initial root) := ⟨[], layered_initial idx root⟩
  refine ⟨hempty, ofRoot_induction (P := fun w => ∃ done, Layered idx root done w) hinitial ?_⟩
  rintro w id above queue ⟨done, h⟩ hq
  exact ⟨done ++ [(id, above)], h.step hroot hq⟩

/-- When the queue is empty, no chain is shorter than the path to where it leads. -/
theorem Layered.length_le (h : Layered idx root done w) (hq : w.queue = []) {ids : List ItemId}
    (hchain : idx.Chain root id ids) : ∃ q ∈ done, q.1 = id ∧ q.2.length + 1 ≤ ids.length := by
  have hdone : done ++ w.queue = done := by
    rw [hq, List.append_nil]
  induction hchain with
  | root =>
      exact ⟨(root, []), hdone ▸ h.start, rfl, Nat.le_refl _⟩
  | child _ hedge ih =>
      rcases ih with ⟨p, hp, rfl, hlength⟩
      rcases h.below p hp _ hedge with ⟨q, hmem, hqb, hstep⟩
      refine ⟨q, hdone ▸ hmem, hqb, ?_⟩
      rw [List.length_append, List.length_singleton]
      exact Nat.succ_le_succ (Nat.le_trans hstep hlength)

/-- A module that was taken has the path of its entry. -/
theorem Layered.exists_entry (h : Layered idx root done w) {m : Module} (hm : m ∈ w.modules) :
    ∃ q ∈ done, q.1 = m.id ∧ m.path = q.2 ++ [idx.nameOf m.id] := by
  have hmem : (m.id, m.path) ∈ w.modules.map fun m => (m.id, m.path) :=
    List.mem_map.2 ⟨m, hm, rfl⟩
  rw [h.taken] at hmem
  rcases List.mem_map.1 hmem with ⟨q, hq, heq⟩
  rcases Prod.mk.inj heq with ⟨hid, hpath⟩
  exact ⟨q, (List.mem_filter.1 hq).1, hid, hid ▸ hpath.symm⟩

/-- An id has one entry. -/
theorem Layered.entry_unique (h : Layered idx root done w) {p q : ItemId × List String}
    (hp : p ∈ done) (hq : q ∈ done) (hid : p.1 = q.1) : p = q := by
  have hnodup := h.nodup
  rw [h.visited] at hnodup
  exact List.inj_on_of_nodup_map hnodup.of_append_left hp hq hid

/-- An entry that is kept gives a module. -/
theorem Layered.exists_module (h : Layered idx root done w) (hid : id ∈ done.map Prod.fst)
    (hkeep : keeps idx root id = true) : ∃ m ∈ w.modules, m.id = id := by
  have hmem : id ∈ w.modules.map Module.id := by
    rw [h.modules]
    exact List.mem_filter.2 ⟨hid, hkeep⟩
  exact List.mem_map.1 hmem

theorem Layered.pairwise_length (h : Layered idx root done w) :
    w.modules.Pairwise fun m m' => m.path.length ≤ m'.path.length := by
  have hentries : (done.filter fun q => keeps idx root q.1).Pairwise
      fun p q => p.2.length ≤ q.2.length :=
    (List.pairwise_append.1 h.sorted).1.filter _
  have hpaths : (w.modules.map fun m => (m.id, m.path)).Pairwise
      fun p q => p.2.length ≤ q.2.length := by
    rw [h.taken, List.pairwise_map]
    refine hentries.imp fun hle => ?_
    simpa using hle
  exact (List.pairwise_map (f := fun m : Module => (m.id, m.path))).1 hpaths

end Walk

namespace Tree

/-- A module stands under the names along a chain from the root to it that is as short as any, and
the modules are sorted by the lengths of their paths. -/
theorem path_shortest {idx : Index} {mode : Mode} {root : ItemId} {t : Tree}
    (h : ofIndex idx mode root = .ok t) :
    (∀ m ∈ t.modules, ∃ ids, idx.Chain (idx.rootFor root) m.id ids ∧
      m.path = ids.map idx.nameOf ∧
      ∀ ids', idx.Chain (idx.rootFor root) m.id ids' → m.path.length ≤ ids'.length) ∧
    t.modules.Pairwise fun m m' => m.path.length ≤ m'.path.length := by
  rcases eq_of_ofIndex h with ⟨hroot, -, -, hmodules⟩
  rcases Walk.layered_ofRoot hroot with ⟨hempty, done, hlayered⟩
  rw [hmodules]
  refine ⟨fun m hm => ?_, hlayered.pairwise_length⟩
  rcases hlayered.exists_entry hm with ⟨q, hq, hid, hpath⟩
  rcases hlayered.named q (List.mem_append_left _ hq) with ⟨ids, hchain, hnames⟩
  rw [hid] at hchain hnames
  refine ⟨ids, hchain, hpath.trans hnames, fun ids' hchain' => ?_⟩
  rcases hlayered.length_le hempty hchain' with ⟨q', hq', hid', hlength⟩
  rw [hpath, hlayered.entry_unique hq hq' (hid.trans hid'.symm), List.length_append,
    List.length_singleton]
  exact hlength

/-- The root stands under its own name, every other module under the root's name, the names of
modules of the tree and its own. -/
theorem path_cases {idx : Index} {mode : Mode} {root : ItemId} {t : Tree}
    (h : ofIndex idx mode root = .ok t) {m : Module} (hm : m ∈ t.modules) :
    if m.isRoot then m.path = [idx.nameOf (idx.rootFor root)]
    else ∃ between, m.path = idx.nameOf (idx.rootFor root) :: between ++ [m.name] ∧
      ∀ n ∈ between, ∃ m' ∈ t.modules, m'.name = n := by
  rcases eq_of_ofIndex h with ⟨hroot, -, -, hmodules⟩
  have hdescribed := describes h
  rcases Walk.layered_ofRoot hroot with ⟨hempty, done, hlayered⟩
  generalize idx.rootFor root = r at hroot hmodules hdescribed hlayered hempty
  have hname : ∀ m' ∈ t.modules, m'.name = idx.nameOf m'.id ∧ m'.isRoot = (m'.id == r) := by
    intro m' hm'
    rcases hdescribed m' hm' with ⟨it, above, hit, heq⟩
    rw [Index.nameOf_of_lookup hit, heq]
    exact ⟨rfl, rfl⟩
  rcases hlayered.exists_entry (hmodules ▸ hm) with ⟨q, hq, hid, hpath⟩
  rcases hlayered.named q (List.mem_append_left _ hq) with ⟨ids, hchain, hnames⟩
  rw [hid] at hchain hnames
  rw [(hname m hm).2, (hname m hm).1]
  by_cases hfirst : m.id = r
  · -- the entry of the root is the one that the walk starts with
    have hstart : (r, []) ∈ done := by
      have hstart := hlayered.start
      rwa [hempty, List.append_nil] at hstart
    rw [if_pos (beq_iff_eq.2 hfirst), hpath,
      hlayered.entry_unique hq hstart (hid.trans hfirst), hfirst, List.nil_append]
  · rw [if_neg (mt beq_iff_eq.1 hfirst)]
    cases hchain with
    | root =>
        exact absurd rfl hfirst
    | @child _ _ above habove hedge =>
        rcases habove.eq_cons with ⟨between, hbetween⟩
        refine ⟨between.map idx.nameOf, ?_, ?_⟩
        · rw [hpath, hnames, hbetween]
          simp
        · intro n hn
          rcases List.mem_map.1 hn with ⟨a, ha, rfl⟩
          have ha' : a ∈ above := hbetween ▸ List.mem_cons_of_mem _ ha
          -- a module on the way lists another one, so it is in the tree
          have hdone : a ∈ done.map Prod.fst :=
            (hlayered.mem_done_iff hempty a).2 (habove.reaches a ha')
          have hkeep : Walk.keeps idx r a = true := by
            rw [Walk.keeps, habove.hasChild hedge a ha', Bool.or_true]
          rcases hlayered.exists_module hdone hkeep with ⟨m', hm', rfl⟩
          exact ⟨m', hmodules ▸ hm', (hname m' (hmodules ▸ hm')).1⟩

/-- An item with a name that is a module and lists the given ids. -/
def moduleNamed (name : String) (ids : List ItemId) : Json :=
  .object "" [("name", .string "" name), ("inner", .object "" [("module",
    .object "" [("items", .array "" (ids.map (Json.string "")))])])]

/-- Two ways lead from the root to a module, one of them through a cycle back to the root. -/
def ringIndex : Index :=
  { root := "0"
    items :=
      [("0", moduleNamed "app" ["1", "2"]), ("1", moduleNamed "net" ["0", "3"]),
        ("2", moduleNamed "io" ["4"]), ("3", moduleNamed "tcp" ["4", "1"]),
        ("4", moduleNamed "buf" ["0"])] }

theorem path_shortest_ring : ∃ t, ofIndex ringIndex .library "" = .ok t ∧
    t.modules.map Module.path =
      [["app"], ["app", "net"], ["app", "io"], ["app", "net", "tcp"], ["app", "io", "buf"]] ∧
    ringIndex.Chain "0" "4" ["0", "1", "3", "4"] ∧
    ∀ ids, ringIndex.Chain "0" "4" ids → 3 ≤ ids.length := by
  have hroot : ringIndex.kind? (ringIndex.rootFor "") = some .module := by decide
  have htree := ofIndex_of_module_root .library hroot
  rcases path_shortest htree with ⟨hpath, -⟩
  refine ⟨_, htree, by decide, ?_, fun ids hchain => ?_⟩
  · have h01 : ringIndex.Contains "0" "1" := by decide
    have h13 : ringIndex.Contains "1" "3" := by decide
    have h34 : ringIndex.Contains "3" "4" := by decide
    exact ((Index.Chain.root.child h01).child h13).child h34
  · have hlast : ∃ m ∈ (Walk.ofRoot ringIndex (ringIndex.rootFor "")).modules,
        m.id = "4" ∧ m.path.length = 3 := by
      decide
    rcases hlast with ⟨m, hm, hid, hlength⟩
    rcases hpath m hm with ⟨-, -, -, hshort⟩
    rw [hid, hlength] at hshort
    exact hshort ids hchain

end Tree
end ApiPages

import ApiPages.Proofs.Graph.Ownership

/-!
# Losing one entry of the index

An entry that does not decode is lost alone.  Two walks are followed side by side, one over an index
and one over the same index without the entry: they read the same modules in the same order, since
the lost item is no module and so is never in the queue.

* `Index.Loses` is all that the walks need to know of the two indexes; `Index.loses_replaceItem` and
  `Index.loses_removeItem` say that a malformed entry and a deleted one are such losses;
* `Entry.without` and `Module.without` take away what one id contributed;
* `Walk.Beside` relates the two walks, `Walk.Beside.step` keeps it over one step and
  `Walk.beside_iterate` over any number of them;
* `Tree.ofIndex_replaceItem` compares the trees.
-/

namespace ApiPages

/-! ## Indexes without an entry -/

namespace Index

/-- The index in which the raw entry of an id is another one. -/
def replaceItem (idx : Index) (x : ItemId) (j : Json) : Index :=
  { idx with items := idx.items.map fun e => if e.1 == x then (x, j) else e }

def removeItem (idx : Index) (x : ItemId) : Index :=
  { idx with items := idx.items.filter (·.1 != x) }

/-- An index in which nothing is found under one id, and all other ids lead where they did. -/
structure Loses (idx : Index) (x : ItemId) (lost : Index) : Prop where
  gone : lost.lookup? x = none
  kept : ∀ id, id ≠ x → lost.lookup? id = idx.lookup? id
  readsOn : lost.readsOn = idx.readsOn

/-- An id is lost when a malformed entry, or none, is found under it and all others lead to what
they led to. -/
theorem loses_of_lookup {idx lost : Index} {x : ItemId} {found : Option Json}
    (hmalformed : found.bind Item.ofJson? = none)
    (h : ∀ id, Json.lookup id lost.items = if id = x then found else Json.lookup id idx.items)
    (hreadsOn : lost.readsOn = idx.readsOn) : idx.Loses x lost := by
  refine ⟨?_, ?_, hreadsOn⟩
  · show (Json.lookup x lost.items).bind Item.ofJson? = none
    rw [h, if_pos rfl, hmalformed]
  · intro id hid
    show (Json.lookup id lost.items).bind Item.ofJson? = _
    rw [h, if_neg hid]
    rfl

theorem lookup_replaced (x : ItemId) (j : Json) (id : ItemId) (items : List (ItemId × Json)) :
    (items.map fun e => if e.1 == x then (x, j) else e).lookup id =
      if id = x then (items.lookup x).map fun _ => j else items.lookup id := by
  induction items with
  | nil =>
      by_cases hid : id = x <;> simp [hid]
  | cons e items ih =>
      rcases e with ⟨key, old⟩
      by_cases hkey : key = x
      · -- the entry is replaced, and it is found exactly when the id is `x`
        by_cases hid : id = x
        · simp [hkey, hid]
        · have hne : (id == x) = false := by simpa using hid
          simpa [List.lookup_cons, hkey, hid, hne] using ih
      · by_cases hid : id = key
        · simp [hkey, hid]
        · have hne : (id == key) = false := by simpa using hid
          have hne' : (x == key) = false := by simpa using Ne.symm hkey
          simpa [List.lookup_cons, hkey, hne, hne'] using ih

theorem lookup_removed (x id : ItemId) (items : List (ItemId × Json)) :
    (items.filter (·.1 != x)).lookup id = if id = x then none else items.lookup id := by
  induction items with
  | nil =>
      simp
  | cons e items ih =>
      rcases e with ⟨key, old⟩
      by_cases hkey : key = x
      · by_cases hid : id = x
        · simpa [hkey, hid] using ih
        · have hne : (id == x) = false := by simpa using hid
          simpa [List.lookup_cons, hkey, hid, hne] using ih
      · by_cases hid : id = key
        · simp [hkey, hid]
        · have hne : (id == key) = false := by simpa using hid
          simpa [List.lookup_cons, hkey, hne] using ih

theorem loses_replaceItem (idx : Index) (x : ItemId) {j : Json} (hj : Item.ofJson? j = none) :
    idx.Loses x (idx.replaceItem x j) := by
  have hmalformed : ((idx.items.reverse.lookup x).map fun _ => j).bind Item.ofJson? = none := by
    cases idx.items.reverse.lookup x with
    | none =>
        rfl
    | some old =>
        exact hj
  refine loses_of_lookup hmalformed (fun id => ?_) rfl
  rw [replaceItem, Json.lookup, ← List.map_reverse, lookup_replaced]
  rfl

theorem loses_removeItem (idx : Index) (x : ItemId) : idx.Loses x (idx.removeItem x) := by
  have hnone : (none : Option Json).bind Item.ofJson? = none := rfl
  refine loses_of_lookup hnone (fun id => ?_) rfl
  rw [removeItem, Json.lookup, ← List.filter_reverse, lookup_removed]
  rfl

theorem Loses.kind {idx lost : Index} {x : ItemId} (h : idx.Loses x lost) (id : ItemId) :
    lost.kind? id = if id = x then none else idx.kind? id := by
  by_cases hid : id = x
  · rw [if_pos hid, Index.kind?, hid, h.gone]
    rfl
  · rw [if_neg hid, Index.kind?, h.kept id hid]
    rfl

end Index

/-! ## Entries without what an id contributed -/

namespace Index

/-- The ids inside the item of an id that contribute to its entry, one for each field, variant or
member shown. -/
def contributors (idx : Index) (id : ItemId) : List ItemId :=
  (do
    let it ← idx.lookup? id
    let k ← it.kind?
    return (it.memberIds idx.readsOn k).filter fun m =>
      (idx.lookup? m).isSome : Option (List ItemId)).getD []

end Index

/-- The elements of a list that ids other than `x` contributed, given the ids of all its
elements. -/
def contributedByOthers {α : Type} (x : ItemId) (ids : List ItemId) (parts : List α) : List α :=
  ((ids.zip parts).filter fun p => p.1 != x).map Prod.snd

/-- The fields, variants or members that ids other than `x` contributed. -/
def Detail.without (x : ItemId) (ids : List ItemId) : Detail → Detail
  | .struct fields => .struct (contributedByOthers x ids fields)
  | .enum variants => .enum (contributedByOthers x ids variants)
  | .trait members => .trait (contributedByOthers x ids members)
  | d => d

/-- The number of fields, variants or members, for the kinds of entries that have them. -/
def Detail.parts? : Detail → Option Nat
  | .struct fields => some fields.length
  | .enum variants => some variants.length
  | .trait members => some members.length
  | _ => none

def Entry.without (idx : Index) (x : ItemId) (e : Entry) : Entry :=
  { e with detail := e.detail.without x (idx.contributors e.id) }

def Module.without (idx : Index) (x : ItemId) (m : Module) : Module :=
  { m with entries := (m.entries.filter fun e => e.id != x).map (Entry.without idx x) }

/-- Whether a module is in the tree for another reason than the entry of `x`. -/
def Module.survives (x : ItemId) (m : Module) : Bool :=
  m.isRoot || m.entries.any fun e => e.id != x

namespace Index

theorem contributors_of_kind {idx : Index} {id : ItemId} {it : Item} {k : Kind}
    (hit : idx.lookup? id = some it) (hk : it.kind? = some k) :
    idx.contributors id = (it.memberIds idx.readsOn k).filter fun m => (idx.lookup? m).isSome := by
  simp [contributors, hit, hk]

theorem length_members (idx : Index) (it : Item) (k : Kind) :
    (idx.members it k).length =
      ((it.memberIds idx.readsOn k).filter fun m => (idx.lookup? m).isSome).length := by
  rw [members]
  induction it.memberIds idx.readsOn k with
  | nil =>
      rfl
  | cons m ms ih =>
      cases hm : idx.lookup? m with
      | none =>
          simpa [hm] using ih
      | some f =>
          simpa [hm] using ih

/-- Without `x`, the members of an item are those that the other ids contribute. -/
theorem Loses.map_members {idx lost : Index} {x : ItemId} (h : idx.Loses x lost) {α : Type}
    (f : Item → α) (it : Item) (k : Kind) :
    (lost.members it k).map f =
      contributedByOthers x ((it.memberIds idx.readsOn k).filter fun m => (idx.lookup? m).isSome)
        ((idx.members it k).map f) := by
  rw [members, members, contributedByOthers, h.readsOn]
  induction it.memberIds idx.readsOn k with
  | nil =>
      rfl
  | cons m ms ih =>
      by_cases hm : m = x
      · -- the lost id contributes nothing any more, whether or not it did before
        subst hm
        rw [List.filterMap_cons, h.gone]
        cases hit : idx.lookup? m with
        | none =>
            simpa [hit] using ih
        | some it' =>
            simpa [hit] using ih
      · rw [List.filterMap_cons, h.kept m hm]
        cases hit : idx.lookup? m with
        | none =>
            simpa [hit] using ih
        | some it' =>
            simpa [hit, hm] using ih

theorem Loses.detail {idx lost : Index} {x : ItemId} (h : idx.Loses x lost) (it : Item) (k : Kind) :
    lost.detail it k =
      (idx.detail it k).without x
        ((it.memberIds idx.readsOn k).filter fun m => (idx.lookup? m).isSome) := by
  -- only three kinds look at other items; the rest is read off the item itself
  have hother : ∀ d : Detail, (∀ ids, d.without x ids = d) → ∀ ids, d = d.without x ids :=
    fun d hd ids => (hd ids).symm
  cases k with
  | struct =>
      exact congrArg Detail.struct (h.map_members _ it .struct)
  | enum =>
      exact congrArg Detail.enum (h.map_members _ it .enum)
  | trait =>
      exact congrArg Detail.trait (h.map_members _ it .trait)
  | module =>
      rfl
  | function =>
      refine hother it.functionDetail ?_ _
      intro ids
      unfold Item.functionDetail
      split <;> rfl
  | constant =>
      refine hother it.constantDetail ?_ _
      intro ids
      unfold Item.constantDetail
      split <;> rfl
  | typeAlias =>
      refine hother (it.aliasDetail .typeAlias) ?_ _
      intro ids
      unfold Item.aliasDetail
      split <;> rfl
  | typedef =>
      refine hother (it.aliasDetail .typedef) ?_ _
      intro ids
      unfold Item.aliasDetail
      split <;> rfl

theorem Loses.entryOf {idx lost : Index} {x : ItemId} (h : idx.Loses x lost) (id : ItemId) :
    lost.entryOf? id = if id = x then none else (idx.entryOf? id).map (Entry.without idx x) := by
  by_cases hid : id = x
  · simp [hid, entryOf?, h.gone]
  · rw [if_neg hid]
    cases hit : idx.lookup? id with
    | none =>
        simp [entryOf?, h.kept id hid, hit]
    | some it =>
        cases hk : it.kind? with
        | none =>
            simp [entryOf?, h.kept id hid, hit, hk]
        | some k =>
            simp [entryOf?, h.kept id hid, hit, hk, Entry.without, contributors_of_kind hit hk,
              h.detail]

/-- A module read without `x` is the module without what `x` contributed. -/
theorem Loses.moduleAt {idx lost : Index} {x : ItemId} (h : idx.Loses x lost) (id : ItemId)
    (it : Item) (above : List String) (isRoot : Bool) :
    lost.moduleAt id it above isRoot = (idx.moduleAt id it above isRoot).without idx x := by
  have hentries : it.listedIds.filterMap lost.entryOf? =
      ((it.listedIds.filterMap idx.entryOf?).filter fun e => e.id != x).map
        (Entry.without idx x) := by
    rw [← List.filterMap_eq_filter, List.filterMap_filterMap, List.map_filterMap]
    refine List.filterMap_congr ?_
    intro child _
    rw [h.entryOf child]
    cases he : idx.entryOf? child with
    | none =>
        simp
    | some e =>
        have heid := (entryOf?_eq_some he).1
        by_cases hchild : child = x
        · simp [hchild, heid, Option.guard]
        · simp [hchild, heid, Option.guard]
  simp only [Index.moduleAt, Module.without, hentries]

theorem Loses.hasChild {idx lost : Index} {x id : ItemId} (h : idx.Loses x lost) (hid : id ≠ x)
    {it : Item} (hit : idx.lookup? id = some it) (above : List String) (isRoot : Bool) :
    lost.hasChild id = (idx.moduleAt id it above isRoot).entries.any fun e => e.id != x := by
  have hit' : lost.lookup? id = some it := (h.kept id hid).trans hit
  have hempty := entries_moduleAt_isEmpty hit' above isRoot
  rw [h.moduleAt, Module.without, List.isEmpty_map] at hempty
  have hfilter : ∀ es : List Entry, (es.filter fun e => e.id != x).isEmpty =
      !es.any fun e => e.id != x := by
    intro es
    rw [Bool.eq_iff_iff]
    simp
  rw [hfilter] at hempty
  exact Bool.not_inj hempty.symm

/-- The edges of the module graph stay, since the lost item is no module. -/
theorem Loses.submodulesOf {idx lost : Index} {x id : ItemId} (h : idx.Loses x lost)
    (hx : idx.kind? x ≠ some .module) (hid : id ≠ x) :
    lost.submodulesOf id = idx.submodulesOf id := by
  rw [Index.submodulesOf, Index.submodulesOf, listedBy, listedBy, h.kept id hid]
  refine List.filter_congr ?_
  intro child _
  rw [h.kind child]
  by_cases hchild : child = x
  · simp [hchild, hx]
  · rw [if_neg hchild]

end Index

/-! ## Two walks side by side -/

namespace Walk

/-- A walk over an index and one over the same index without `x`, after the same number of steps. -/
structure Beside (idx : Index) (x : ItemId) (w w' : Walk) : Prop where
  queue : w'.queue = w.queue
  visited : w'.visited = w.visited
  modules : w'.modules = (w.modules.filter (Module.survives x)).map (Module.without idx x)
  waiting : ∀ q ∈ w.queue, idx.kind? q.1 = some .module

theorem Beside.step {idx lost : Index} {x root : ItemId} {w w' : Walk} (h : Beside idx x w w')
    (hlost : idx.Loses x lost) (hx : idx.kind? x ≠ some .module) :
    Beside idx x (w.step idx root) (w'.step lost root) := by
  cases hq : w.queue with
  | nil =>
      rw [step_of_queue_nil idx root hq, step_of_queue_nil lost root (h.queue.trans hq)]
      exact h
  | cons head queue =>
      rcases head with ⟨id, above⟩
      have hkind : idx.kind? id = some .module := h.waiting (id, above) (hq ▸ List.mem_cons_self ..)
      have hid : id ≠ x := fun heq => hx (heq ▸ hkind)
      rcases Index.exists_lookup_of_kind hkind with ⟨it, hit⟩
      have hit' : lost.lookup? id = some it := (hlost.kept id hid).trans hit
      have hsub := hlost.submodulesOf hx hid
      rw [step_of_lookup hq hit, step_of_lookup (h.queue.trans hq) hit']
      constructor
      · show queue ++ _ = queue ++ _
        rw [h.visited, hsub]
      · show w'.visited ++ _ = w.visited ++ _
        rw [h.visited, hsub]
      · show w'.modules ++ _ = ((w.modules ++ _).filter _).map _
        rw [List.filter_append, List.map_append, ← h.modules]
        congr 1
        -- the module is kept without `x` if it is kept and has something besides `x`
        have hchild := hlost.hasChild hid hit above (id == root)
        have hkeep : keeps lost root id =
            (idx.moduleAt id it above (id == root)).survives x := by
          rw [keeps, hchild]
          rfl
        rw [hlost.moduleAt, hkeep]
        cases hsurvives : (idx.moduleAt id it above (id == root)).survives x with
        | false =>
            cases keeps idx root id with
            | false =>
                rfl
            | true =>
                simp [hsurvives]
        | true =>
            have hboth : keeps idx root id = true := by
              have hempty := Index.entries_moduleAt_isEmpty hit above (id == root)
              rcases Bool.or_eq_true_iff.1 hsurvives with hroot | hany
              · exact Bool.or_eq_true_iff.2 (Or.inl hroot)
              · refine Bool.or_eq_true_iff.2 (Or.inr ?_)
                rcases List.any_eq_true.1 hany with ⟨e, he, -⟩
                rw [List.isEmpty_eq_false_iff.2 (List.ne_nil_of_mem he)] at hempty
                simpa using hempty.symm
            simp [hboth, hsurvives]
      · intro q hmem
        rcases List.mem_append.1 hmem with hold | hnew
        · exact h.waiting q (hq ▸ List.mem_cons_of_mem _ hold)
        · rcases List.mem_map.1 hnew with ⟨sub, hfresh, rfl⟩
          have hmodule := (List.mem_filter.1 (mem_fresh_iff.1 hfresh).1).2
          exact eq_of_beq hmodule

theorem beside_iterate {idx lost : Index} {x root : ItemId} (hlost : idx.Loses x lost)
    (hx : idx.kind? x ≠ some .module) (hroot : idx.kind? root = some .module) (n : Nat) :
    Beside idx x ((step idx root)^[n] (initial root)) ((step lost root)^[n] (initial root)) := by
  induction n with
  | zero =>
      refine ⟨rfl, rfl, rfl, ?_⟩
      intro q hq
      rw [List.mem_singleton.1 hq]
      exact hroot
  | succ n ih =>
      rw [Function.iterate_succ_apply', Function.iterate_succ_apply']
      exact ih.step hlost hx

/-- A walk that may take more steps than it needs ends the same. -/
theorem iterate_add_eq_ofRoot {idx : Index} {root : ItemId} (hroot : idx.kind? root = some .module)
    (n : Nat) : (step idx root)^[n + (idx.items.length + 1)] (initial root) = ofRoot idx root := by
  rcases progress_ofRoot hroot with ⟨-, -, hempty⟩
  have hrun : (step idx root)^[idx.items.length + 1] (initial root) = ofRoot idx root :=
    (run_eq_iterate ..).symm
  rw [Function.iterate_add_apply, hrun]
  exact Function.iterate_fixed (step_of_queue_nil idx root hempty) n

theorem beside_ofRoot {idx lost : Index} {x root : ItemId} (hlost : idx.Loses x lost)
    (hx : idx.kind? x ≠ some .module) (hroot : idx.kind? root = some .module) :
    Beside idx x (ofRoot idx root) (ofRoot lost root) := by
  have hne : root ≠ x := fun heq => hx (heq ▸ hroot)
  have hroot' : lost.kind? root = some .module := by
    rw [hlost.kind, if_neg hne, hroot]
  -- the tables differ in length, so both walks are given the steps of both
  have h := beside_iterate hlost hx hroot (lost.items.length + 1 + (idx.items.length + 1))
  rw [iterate_add_eq_ofRoot hroot, Nat.add_comm, iterate_add_eq_ofRoot hroot'] at h
  exact h

/-- A walk asks an index for nothing but lookups, and for how lists are read. -/
theorem step_congr {idx idx' : Index} (h : idx.lookup? = idx'.lookup?)
    (hreadsOn : idx.readsOn = idx'.readsOn) (root : ItemId) : step idx root = step idx' root := by
  have hmembers : idx.members = idx'.members := by
    funext it k
    rw [Index.members, Index.members, h, hreadsOn]
  have hdetail : idx.detail = idx'.detail := by
    funext it k
    cases k <;> simp only [Index.detail, hmembers]
  have hentry : idx.entryOf? = idx'.entryOf? := by
    funext id
    simp only [Index.entryOf?, h, hdetail]
  have hmissing : idx.missing = idx'.missing := by
    funext id
    simp only [Index.missing, h, hreadsOn]
  funext w
  simp only [step, Index.moduleAt, h, hentry, hmissing]
  rfl

theorem ofRoot_congr {idx idx' : Index} (h : idx.lookup? = idx'.lookup?)
    (hreadsOn : idx.readsOn = idx'.readsOn) {root : ItemId}
    (hroot : idx.kind? root = some .module) :
    ofRoot idx root = ofRoot idx' root := by
  have hroot' : idx'.kind? root = some .module := by
    rwa [Index.kind?, ← h]
  rw [← iterate_add_eq_ofRoot hroot (idx'.items.length + 1),
    ← iterate_add_eq_ofRoot hroot' (idx.items.length + 1), step_congr h hreadsOn, Nat.add_comm]

end Walk

/-! ## Trees -/

namespace Tree

/-- An entry shows one field, variant or member for each id that contributes to it. -/
theorem parts?_eq_some {idx : Index} {mode : Mode} {root : ItemId} {t : Tree}
    (h : ofIndex idx mode root = .ok t) {m : Module} (hm : m ∈ t.modules) {e : Entry}
    (he : e ∈ m.entries) {n : Nat} (hn : e.detail.parts? = some n) :
    n = (idx.contributors e.id).length := by
  have hentry := ((Index.mem_entries_iff (describes h m hm) e).1 he).2
  rcases (Index.entryOf?_eq_some hentry).2 with ⟨it, k, hit, hk, heq⟩
  have hdetail : e.detail = idx.detail it k := congrArg Entry.detail heq
  have hlen := idx.length_members it k
  rw [hdetail] at hn
  rw [Index.contributors_of_kind hit hk, ← hlen]
  cases k with
  | struct | enum | trait =>
      simpa [Index.detail, Detail.parts?, eq_comm] using hn
  | module =>
      cases hn
  -- the other kinds have no parts
  | function =>
      simp only [Index.detail, Item.functionDetail] at hn
      split at hn <;> cases hn
  | constant =>
      simp only [Index.detail, Item.constantDetail] at hn
      split at hn <;> cases hn
  | typeAlias | typedef =>
      simp only [Index.detail, Item.aliasDetail] at hn
      split at hn <;> cases hn

/-- Without a module at the root there is no tree, and the error depends on the root's item only. -/
theorem ofIndex_congr_error {idx idx' : Index} {root : ItemId} (mode : Mode)
    (hroot : idx'.root = idx.root)
    (hlookup : idx'.lookup? (idx.rootFor root) = idx.lookup? (idx.rootFor root))
    (hkind : idx.kind? (idx.rootFor root) ≠ some .module) :
    ∃ e, ofIndex idx mode root = .error e ∧ ofIndex idx' mode root = .error e := by
  have hroot' : idx'.rootFor root = idx.rootFor root := by
    rw [Index.rootFor, Index.rootFor, hroot]
  rw [ofIndex_eq, ofIndex_eq, hroot', hlookup]
  cases hit : idx.lookup? (idx.rootFor root) with
  | none =>
      exact ⟨_, rfl, rfl⟩
  | some it =>
      have hne : (it.kind? == some .module) = false := by
        simpa [Index.kind?, hit] using hkind
      simp only [hne, Bool.false_eq_true, if_false]
      exact ⟨_, rfl, rfl⟩

/-- The modules of the tree of an index that has lost an entry. -/
theorem modules_of_loses {idx lost : Index} {x root : ItemId} (mode : Mode)
    (hlost : idx.Loses x lost) (hsame : lost.root = idx.root)
    (hx : idx.kind? x ≠ some .module) (hroot : x ≠ idx.rootFor root) :
    (ofIndex lost mode root).map Tree.modules =
      (ofIndex idx mode root).map fun t =>
        (t.modules.filter (Module.survives x)).map (Module.without idx x) := by
  by_cases hkind : idx.kind? (idx.rootFor root) = some .module
  · have hroot' : lost.rootFor root = idx.rootFor root := by
      rw [Index.rootFor, Index.rootFor, hsame]
    have hkind' : lost.kind? (lost.rootFor root) = some .module := by
      rw [hroot', hlost.kind, if_neg (Ne.symm hroot), hkind]
    rw [ofIndex_of_module_root mode hkind, ofIndex_of_module_root mode hkind', hroot']
    exact congrArg Except.ok (Walk.beside_ofRoot hlost hx hkind).modules
  · rcases ofIndex_congr_error mode hsame (hlost.kept _ (Ne.symm hroot)) hkind with ⟨e, he, he'⟩
    rw [he, he']
    rfl

/-- A malformed entry is lost alone.  The tree holds the same modules in the same order, apart from
those that listed nothing else, each without what the entry contributed to it; and it is the tree of
the index from which the entry is deleted. -/
theorem ofIndex_replaceItem (idx : Index) (mode : Mode) (root x : ItemId) (j : Json)
    (hx : idx.kind? x ≠ some .module) (hroot : x ≠ idx.rootFor root) (hj : Item.ofJson? j = none) :
    (ofIndex (idx.replaceItem x j) mode root).map Tree.modules =
      (ofIndex idx mode root).map (fun t =>
        (t.modules.filter fun m => m.isRoot || m.entries.any fun e => e.id != x).map
          (Module.without idx x)) ∧
    (∀ t, ofIndex idx mode root = .ok t → ∀ m ∈ t.modules, ∀ e ∈ m.entries, ∀ n,
      e.detail.parts? = some n → n = (idx.contributors e.id).length) ∧
    ofIndex (idx.removeItem x) mode root =
      (ofIndex (idx.replaceItem x j) mode root).map
        (fun t => { t with index := idx.removeItem x }) ∧
    ∀ t, ofIndex (idx.replaceItem x j) mode root = .ok t →
      ∀ id, { t with index := idx.removeItem x }.resolve? id = t.resolve? id := by
  have hreplaced := idx.loses_replaceItem x hj
  have hremoved := idx.loses_removeItem x
  refine ⟨modules_of_loses mode hreplaced rfl hx hroot, ?_, ?_, ?_⟩
  · intro t ht m hm e he n hn
    exact parts?_eq_some ht hm he hn
  · have hlookup : (idx.replaceItem x j).lookup? = (idx.removeItem x).lookup? := by
      funext id
      by_cases hid : id = x
      · rw [hid, hreplaced.gone, hremoved.gone]
      · rw [hreplaced.kept id hid, hremoved.kept id hid]
    by_cases hkind : (idx.replaceItem x j).kind? ((idx.replaceItem x j).rootFor root) = some .module
    · have hkind' : (idx.removeItem x).kind? ((idx.removeItem x).rootFor root) = some .module := by
        rw [Index.kind?, ← hlookup]
        exact hkind
      have hwalk : Walk.ofRoot (idx.replaceItem x j) ((idx.replaceItem x j).rootFor root) =
          Walk.ofRoot (idx.removeItem x) ((idx.removeItem x).rootFor root) :=
        Walk.ofRoot_congr hlookup rfl hkind
      rw [ofIndex_of_module_root mode hkind, ofIndex_of_module_root mode hkind', hwalk]
      rfl
    · have hsame : (idx.removeItem x).root = (idx.replaceItem x j).root := rfl
      rcases ofIndex_congr_error mode hsame (congrFun hlookup.symm _) hkind with ⟨e, he, he'⟩
      rw [he, he']
      rfl
  · intro t ht id
    -- links look at summaries and at other crates, which are the same
    have hindex := (eq_of_ofIndex ht).2.2.1
    simp only [resolve?, owner?, hindex]
    rfl

/-- A constant that is listed by the root, is the only entry of a module and counts as a field of a
struct. -/
def sharedIndex : Index :=
  { root := "0"
    items :=
      [("0", moduleListing ["1", "2", "4"]),
        ("1", .object "" [("inner", .object "" [("struct", .object "" [("fields",
          .array "" [.string "" "3", .string "" "4"])])])]),
        ("2", moduleListing ["4"]), ("3", .object "" [("name", .string "" "width")]),
        ("4", .object "" [("inner", .object "" [("constant", .object "" [])])])] }

theorem ofIndex_replaceItem_sharedIndex :
    sharedIndex.kind? "4" ≠ some .module ∧ "4" ≠ sharedIndex.rootFor "" ∧
      Item.ofJson? (.number "4") = none ∧
      (ofIndex sharedIndex .library "").map (fun t => t.modules.map Module.id) = .ok ["0", "2"] ∧
      (ofIndex (sharedIndex.replaceItem "4" (.number "4")) .library "").map Tree.modules =
        (ofIndex sharedIndex .library "").map (fun t =>
          (t.modules.filter fun m => m.isRoot || m.entries.any fun e => e.id != "4").map
            (Module.without sharedIndex "4")) ∧
      (ofIndex (sharedIndex.replaceItem "4" (.number "4")) .library "").map
        (fun t => t.modules.map fun m => (m.id, m.entries.map fun e => (e.id, e.detail.parts?))) =
          .ok [("0", [("1", some 1), ("2", none)])] := by
  have hx : sharedIndex.kind? "4" ≠ some .module := by decide
  have hroot : "4" ≠ sharedIndex.rootFor "" := by decide
  have hj : Item.ofJson? (.number "4") = none := rfl
  have hmain := (ofIndex_replaceItem sharedIndex .library "" "4" (.number "4") hx hroot hj).1
  exact ⟨hx, hroot, hj, by decide, hmain, by decide⟩

end Tree
end ApiPages

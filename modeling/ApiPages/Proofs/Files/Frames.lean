import ApiPages.Proofs.Files.Trees

/-!
# What is left alone

A file is saved only where nothing is in the way, so saving it puts one file at its place and adds
the directories on the way there.  A move changes nothing but what is at and below its two places.

* `FileTree.Saves` is what a save that succeeds says about the trees before and after it, and
  `FileTree.saves_of_save` shows that it says so;
* `FileTree.Leads.save` and `FileTree.node?_save_file` are the frame of a save: whatever a path to
  another place leads to is still there, and no other file comes into being;
* `FileTree.node?_move` is the frame of a move;
* `FileTree.SameOutside` relates trees that differ at and below one place only.
-/

namespace ApiPages

open SlashPath

namespace Place

/-- The place of a path that is none of the bases has a name at its end. -/
theorem exists_concat_of_isBase_eq_false {path : String} (h : (ofPath path).isBase = false) :
    ∃ above name, ofPath path = above ++ [name] ∧ name ≠ "/" := by
  rcases List.eq_nil_or_concat' (elements path) with hnone | ⟨es, e, hes⟩
  · -- a path without elements leads to the root or to the working directory
    rw [ofPath, hnone] at h
    cases hrooted : isRooted path <;> rw [hrooted] at h <;> cases h
  · have hslash : '/' ∉ e := (mem_elements (p := path) (by simp [hes])).2.2
    refine ⟨(if isRooted path then ["/"] else []) ++ es.map String.ofList, String.ofList e, ?_, ?_⟩
    · rw [ofPath, hes, List.map_append, List.map_singleton, List.append_assoc]
    · intro heq
      have hchars : e = ['/'] := by simpa using congrArg String.toList heq
      exact hslash (hchars ▸ List.mem_cons_self ..)

end Place

namespace FileTree

variable {t t' : FileTree} {p q : Place} {path other : String} {b : Bytes}

/-! ## Directories that were made -/

/-- Directories can be made only where no file is on the way. -/
theorem free_of_makeBelow {done : Place} {names : List String}
    (h : t.makeBelow done names = .ok t') (hq : q <+: names) (hne : q ≠ []) (b : Bytes) :
    t.node? (done ++ q) ≠ some (.file b) := by
  induction names generalizing done t q with
  | nil =>
      exact absurd (List.prefix_nil.1 hq) hne
  | cons name rest ih =>
      rcases List.exists_cons_of_ne_nil hne with ⟨first, below, rfl⟩
      rcases List.cons_prefix_cons.1 hq with ⟨rfl, hbelow⟩
      have hplace : done ++ first :: below = done ++ [first] ++ below := by
        rw [List.append_assoc, List.singleton_append]
      cases hnode : t.node? (done ++ [first]) with
      | some n =>
          cases n with
          | file b' =>
              rw [makeBelow, hnode] at h
              cases h
          | dir =>
              rw [makeBelow, hnode] at h
              by_cases hself : below = []
              · rw [hself, hnode]
                intro heq
                cases heq
              · rw [hplace]
                exact ih h hbelow hself
      | none =>
          rw [makeBelow, hnode] at h
          by_cases hself : below = []
          · rw [hself, hnode]
            intro heq
            cases heq
          · -- a place further down is not the one that was made first
            have hdeep : done ++ [first] ++ below ≠ done ++ [first] := by
              intro heq
              exact hself (List.append_right_eq_self.1 heq)
            have hfree := ih h hbelow hself
            rwa [node?_set_of_ne hdeep, ← hplace] at hfree

/-- What the directories were that were made, and what they are now. -/
theorem makeDirs_spec (h : t.makeDirs path = .ok t') :
    (∀ q, q <+: Place.ofPath path → ∀ b, t.node? q ≠ some (.file b)) ∧
      (∀ q, q <+: Place.ofPath path → t'.node? q = some .dir) ∧
      ∀ q, ¬ q <+: Place.ofPath path → t'.node? q = t.node? q := by
  have hfree : ∀ q, q <+: Place.ofPath path → ∀ b, t.node? q ≠ some (.file b) := by
    intro q hq b
    by_cases hself : q = []
    · rw [hself, node?_of_isBase rfl]
      exact fun heq => (nomatch heq)
    · exact free_of_makeBelow h hq hself b
  rcases makeDirs_eq_ok hfree with ⟨t₁, hok, hdirs, hrest⟩
  cases h.symm.trans hok
  exact ⟨hfree, hdirs, hrest⟩

/-! ## Saving -/

/-- A tree with a file put at a place where nothing was in the way. -/
structure Saves (t t' : FileTree) (p : Place) (b : Bytes) : Prop extends Puts t t' p b where
  free : t.node? p ≠ some .dir
  way : ∀ q, q <+: p → q ≠ p → ∀ b, t.node? q ≠ some (.file b)

theorem save_eq_ok_iff : t.save path b = .ok t' ↔
    ∃ t₁, t.makeDirs (SlashPath.dir path) = .ok t₁ ∧ t₁.write path b = .ok t' := by
  unfold save
  cases t.makeDirs (SlashPath.dir path) with
  | error e =>
      exact ⟨fun h => (nomatch h), fun ⟨_, h, _⟩ => (nomatch h)⟩
  | ok t₁ =>
      refine ⟨fun h => ⟨t₁, rfl, h⟩, fun ⟨_, h, hwrite⟩ => ?_⟩
      cases h
      exact hwrite

theorem saves_of_save (hclean : IsClean path) (h : t.save path b = .ok t') :
    Saves t t' (Place.ofPath path) b := by
  rcases save_eq_ok_iff.1 h with ⟨t₁, hmake, hwrite⟩
  have hfree := ((write_eq_ok_iff hclean).1 hwrite).2.1
  rcases Place.exists_concat_of_isBase_eq_false (isBase_eq_false hfree) with
    ⟨above, name, hplace, hname⟩
  have hdir : Place.ofPath (SlashPath.dir path) = above := Place.ofPath_dir hclean hplace hname
  rcases makeDirs_spec hmake with ⟨hway, -, hrest⟩
  rw [hdir] at hway hrest
  have hself : ¬ above ++ [name] <+: above := fun hself => ne_of_prefix_concat hself rfl
  -- the place was free before the directories were made, since it is none of them
  have hbefore : t.node? (above ++ [name]) ≠ some .dir := by
    rw [← hrest _ hself, ← hplace]
    exact hfree
  rcases exists_puts hclean hplace hname hway hbefore b with ⟨t₂, t₃, hmake', hwrite', hputs⟩
  cases hmake.symm.trans hmake'
  cases hwrite.symm.trans hwrite'
  rw [hplace]
  refine { hputs with free := hbefore, way := fun q hq hne => ?_ }
  rcases List.prefix_concat_iff.1 hq with heq | habove
  · exact absurd heq hne
  · exact hway q habove

/-- Whatever is at another place is still there. -/
theorem Saves.keeps_node (h : Saves t t' p b) (hne : q ≠ p) {n : FileNode}
    (hnode : t.node? q = some n) : t'.node? q = some n := by
  by_cases hq : q <+: p
  · -- on the way there are directories only
    cases n with
    | dir =>
        exact h.dirs q hq hne
    | file b' =>
        exact absurd hnode (h.way q hq hne b')
  · exact (h.rest q hq).trans hnode

/-- The files at other places are those that were there. -/
theorem Saves.node?_file_iff (h : Saves t t' p b) (hne : q ≠ p) {b' : Bytes} :
    t'.node? q = some (.file b') ↔ t.node? q = some (.file b') := by
  refine ⟨fun hnode => ?_, h.keeps_node hne⟩
  by_cases hq : q <+: p
  · rw [h.dirs q hq hne] at hnode
    cases hnode
  · exact (h.rest q hq).symm.trans hnode

theorem read_eq_ok_iff_look : t.read path = .ok b ↔ t.look path = .ok (.file b) := by
  rw [read]
  cases t.look path with
  | error r =>
      constructor <;>
      · intro h
        cases h
  | ok n =>
      cases n with
      | dir =>
          constructor <;>
          · intro h
            cases h
      | file b' =>
          simp

/-- A saved file can be read. -/
theorem read_save (hclean : IsClean path) (h : t.save path b = .ok t') : t'.read path = .ok b :=
  (read_eq_ok_iff hclean).2 (saves_of_save hclean h).holds

/-- A path can be followed as long as the directories stay. -/
theorem follow_of_dirs (h : ∀ q, t.node? q = some .dir → t'.node? q = some .dir)
    {names : List String} {r : Place} (hfollow : t.follow p names = .ok r) :
    t'.follow p names = .ok r := by
  induction names generalizing p with
  | nil =>
      exact hfollow
  | cons name rest ih =>
      rw [follow] at hfollow ⊢
      cases hnode : t.node? p with
      | none =>
          rw [hnode] at hfollow
          cases hfollow
      | some n =>
          cases n with
          | file b =>
              rw [hnode] at hfollow
              cases hfollow
          | dir =>
              rw [hnode] at hfollow
              rw [h p hnode]
              exact ih hfollow

/-- A path leads to a node at a place. -/
structure Leads (t : FileTree) (path : String) (p : Place) (n : FileNode) : Prop where
  resolve : t.resolve path = .ok p
  node : t.node? p = some n

theorem look_eq_ok_iff_leads {n : FileNode} : t.look path = .ok n ↔ ∃ p, t.Leads path p n := by
  rw [look]
  constructor
  · intro hlook
    cases hresolve : t.resolve path with
    | error r =>
        rw [hresolve] at hlook
        cases hlook
    | ok p =>
        rw [hresolve] at hlook
        dsimp only at hlook
        cases hnode : t.node? p with
        | none =>
            rw [hnode] at hlook
            cases hlook
        | some n' =>
            rw [hnode] at hlook
            cases hlook
            exact ⟨p, hresolve, hnode⟩
  · rintro ⟨p, hresolve, hnode⟩
    rw [hresolve]
    dsimp only
    rw [hnode]

theorem Leads.read_eq {n : FileNode} (h : t.Leads path p n) (h' : t'.Leads path p n) :
    t'.read path = t.read path := by
  rw [read, read, look_eq_ok_iff_leads.2 ⟨p, h⟩, look_eq_ok_iff_leads.2 ⟨p, h'⟩]

/-- A path that led to another place than the one saved to leads to the same as before. -/
theorem Leads.save {n : FileNode} (h : t.Leads other p n) (hclean : IsClean path)
    (hsave : t.save path b = .ok t') (hne : p ≠ Place.ofPath path) : t'.Leads other p n := by
  have hsaves := saves_of_save hclean hsave
  refine ⟨?_, hsaves.keeps_node hne h.node⟩
  have hresolve := h.resolve
  rw [FileTree.resolve] at hresolve ⊢
  split at hresolve
  · cases hresolve
  · next hempty =>
      rw [if_neg hempty]
      refine follow_of_dirs (fun q hdir => hsaves.keeps_node ?_ hdir) hresolve
      rintro rfl
      exact hsaves.free hdir

/-- Among the files there is the one that was saved, and otherwise those that were there. -/
theorem node?_save_file (hclean : IsClean path) (h : t.save path b = .ok t') (q : Place)
    (b' : Bytes) : t'.node? q = some (.file b') ↔
      if q = Place.ofPath path then b' = b else t.node? q = some (.file b') := by
  have hsaves := saves_of_save hclean h
  split
  · next hself =>
      rw [hself, hsaves.file, Option.some.injEq, FileNode.file.injEq]
      exact eq_comm
  · next hne =>
      exact hsaves.node?_file_iff hne

/-- Below a place that does not lead to the file nothing changes. -/
theorem node?_save_of_apart {out : Place} (hclean : IsClean path) (h : t.save path b = .ok t')
    (hout : ¬ out <+: Place.ofPath path) (hq : out <+: q) : t'.node? q = t.node? q :=
  (saves_of_save hclean h).rest q fun hway => hout (hq.trans hway)

/-! ## Moving -/

theorem lookup_moved_eq_none {r : Place} (hq : ¬ q <+: r) :
    ((t.below p).map fun e => (q ++ e.1, e.2)).lookup r = none := by
  refine List.lookup_eq_none_iff.2 fun e he => ?_
  rcases List.mem_map.1 he with ⟨e', -, rfl⟩
  have hne : r ≠ q ++ e'.1 := fun heq => hq (heq ▸ List.prefix_append q e'.1)
  exact bne_iff_ne.2 hne

theorem node?_transplant_of_not_below {r : Place} (hp : ¬ p <+: r) (hq : ¬ q <+: r) :
    (t.transplant p q).node? r = t.node? r := by
  cases hnode : t.node? r with
  | some n =>
      exact node?_transplant_elsewhere hp hq hnode
  | none =>
      have hbase : r.isBase = false :=
        isBase_eq_false (by rw [hnode]; exact fun heq => (nomatch heq))
      -- nothing is left there, and nothing is moved there
      have hrest : ((t.erase p).erase q).entries.lookup r = none := by
        have herased : ((t.erase p).erase q).node? r = none := by
          rw [node?_erase, node?_erase, if_neg hq, if_neg hp, hbase, hnode]
          rfl
        rwa [node?, hbase, if_neg Bool.false_ne_true] at herased
      rw [node?, hbase, if_neg Bool.false_ne_true, transplant, List.lookup_append, hrest,
        lookup_moved_eq_none hq]
      rfl

theorem move_eq_ok {old new : String} (h : t.move old new = .ok t') : t' = t ∨
    ∃ p q, t.resolve old = .ok p ∧ t.resolve new = .ok q ∧ t' = t.transplant p q := by
  unfold move at h
  dsimp only at h
  -- every way through that succeeds moves what is there or finds the two places to be one
  split at h
  · cases h
  · cases h
  · next p n hold hlook =>
      split at h
      · cases h
      · next q hnew =>
          split at h
          · split at h
            · cases h
              exact Or.inl rfl
            · cases h
          · split at h
            · cases h
            · split at h
              · cases h
                exact Or.inl rfl
              · cases h
                exact Or.inr ⟨p, q, hold, hnew, rfl⟩
          · split at h
            · cases h
            · cases h
              exact Or.inr ⟨p, q, hold, hnew, rfl⟩

/-- A move changes nothing but what is at and below its two places. -/
theorem node?_move {old new : String} (hold : IsClean old) (hnew : IsClean new)
    (h : t.move old new = .ok t') {r : Place} (hp : ¬ Place.ofPath old <+: r)
    (hq : ¬ Place.ofPath new <+: r) : t'.node? r = t.node? r := by
  rcases move_eq_ok h with rfl | ⟨p, q, hresolve, hresolve', rfl⟩
  · rfl
  · rw [((resolve_eq_ok_iff hold).1 hresolve).1, ((resolve_eq_ok_iff hnew).1 hresolve').1]
    exact node?_transplant_of_not_below hp hq

/-! ## Trees that differ in one place -/

/-- Trees that are the same but for what is at and below a place. -/
def SameOutside (room : Place) (t t' : FileTree) : Prop :=
  ∀ q, ¬ room <+: q → t'.node? q = t.node? q

variable {room : Place}

theorem SameOutside.trans {t'' : FileTree} (h : SameOutside room t t')
    (h' : SameOutside room t' t'') : SameOutside room t t'' :=
  fun q hq => (h' q hq).trans (h q hq)

theorem sameOutside_erase (t : FileTree) (room : Place) : SameOutside room t (t.erase room) := by
  intro q hq
  rw [node?_erase, if_neg hq]
  split
  · next hbase =>
      exact (node?_of_isBase hbase).symm
  · rfl

theorem sameOutside_set (t : FileTree) (room : Place) (n : FileNode) :
    SameOutside room t (t.set room n) := by
  intro q hq
  refine node?_set_of_ne ?_
  rintro rfl
  exact hq List.prefix_rfl

/-- A path that does not lead into the place where trees differ leads to the same in both. -/
theorem SameOutside.look (h : SameOutside room t t') (hclean : IsClean path)
    (hout : ¬ room <+: Place.ofPath path) {n : FileNode} (hlook : t.look path = .ok n) :
    t'.look path = .ok n := by
  rcases (look_eq_ok_iff hclean).1 hlook with ⟨hopens, hnode⟩
  refine (look_eq_ok_iff hclean).2 ⟨fun q name hq => ?_, (h _ hout).trans hnode⟩
  have hway : ¬ room <+: q := fun hroom => hout (hroom.trans (prefix_of_prefix_concat hq))
  exact (h q hway).trans (hopens q name hq)

end FileTree
end ApiPages

import ApiPages.Proofs.Files.Paths

/-!
# What the operations on file trees do

A tree is looked at place by place: `FileTree.node?` says what is at a place, and every operation is
described by the nodes it changes.  Nothing here depends on the order of the entries.

* `FileTree.Holds` is a file that can be read: its content is at its place, and the directories on
  the way are there;
* `FileTree.read_eq_ok_iff` and `FileTree.exists?_iff` say what a cleaned path leads to;
* `FileTree.Puts` is the effect of writing a file with the directories it lies in;
* `FileTree.holds_of_move` is the effect of moving a file.
-/

namespace ApiPages

open SlashPath

/-! ## Looking entries up -/

theorem lookup_filter_fst {α β : Type} [BEq α] [LawfulBEq α] (f : α → Bool) (es : List (α × β))
    (k : α) : (es.filter fun e => f e.1).lookup k = if f k then es.lookup k else none := by
  induction es with
  | nil =>
      simp
  | cons e rest ih =>
      rcases e with ⟨k', v⟩
      by_cases hk : k = k'
      · subst hk
        cases hf : f k <;> simp [hf, ih]
      · have hne : (k == k') = false := by simpa using hk
        cases hf : f k' <;> simp [hf, List.lookup_cons, hne, ih]

theorem lookup_map_append {β : Type} (q p : Place) (es : List (Place × β)) :
    (es.map fun e => (q ++ e.1, e.2)).lookup (q ++ p) = es.lookup p := by
  induction es with
  | nil =>
      rfl
  | cons e rest ih =>
      rcases e with ⟨p', v⟩
      rw [List.map_cons, List.lookup_cons, List.lookup_cons, ih]
      have hbeq : (q ++ p == q ++ p') = (p == p') := by
        rw [Bool.eq_iff_iff, beq_iff_eq, beq_iff_eq, List.append_cancel_left_eq]
      rw [hbeq]

namespace Place

/-- Steps to the parent stand only behind others of their kind. -/
def ParentsFirst (p : Place) (names : List String) : Prop :=
  ∀ before after, names = before ++ ".." :: after → ∀ x ∈ p ++ before, x = ".."

variable {p : Place} {name : String} {names : List String}

/-- A step goes one name further down, or up from a place that lies above everything. -/
theorem ParentsFirst.step_eq (h : ParentsFirst p (name :: names)) : p.step name = p ++ [name] := by
  unfold step
  split
  · next hname =>
      have hup : name = ".." := by simpa using hname
      have habove : ∀ x ∈ p, x = ".." := by
        intro x hx
        exact h [] names (by rw [hup]; rfl) x (by simpa using hx)
      have hall : p.all (· == "..") = true := by simpa using habove
      have hroot : (p == ["/"]) = false := by
        rw [beq_eq_false_iff_ne]
        rintro rfl
        exact absurd (habove "/" (List.mem_singleton_self ..)) (by decide)
      rw [parent, hroot, hall, hup]
      rfl
  · rfl

theorem ParentsFirst.rest (h : ParentsFirst p (name :: names)) :
    ParentsFirst (p ++ [name]) names := by
  intro before after hnames x hx
  refine h (name :: before) after (by rw [hnames]; rfl) x ?_
  simpa using hx

/-- The elements of a path have the steps to the parent in front. -/
theorem parentsFirst_ofPath (path : String) :
    ParentsFirst (if isRooted path then ["/"] else []) ((elements path).map String.ofList) := by
  intro before after hsplit x hx
  rcases List.map_eq_append_iff.1 hsplit with ⟨es, rest, hes, rfl, hrest⟩
  rcases List.map_eq_cons_iff.1 hrest with ⟨e, es', rfl, he, rfl⟩
  have hparent : e = ['.', '.'] := by simpa using congrArg String.toList he
  rw [hparent] at hes
  have hfront := elements_parent hes
  rw [hfront.1, if_neg Bool.false_ne_true, List.nil_append] at hx
  rcases List.mem_map.1 hx with ⟨e', he', rfl⟩
  rw [hfront.2 e' he']

end Place

namespace FileTree

variable {t t' : FileTree} {p q : Place} {path : String} {b : Bytes}

/-! ## Following paths -/

/-- Every place from which a name is followed is a directory. -/
def OpensAlong (t : FileTree) (p : Place) (names : List String) : Prop :=
  ∀ q name, q ++ [name] <+: names → t.node? (p ++ q) = some .dir

/-- Every place on the way to a place is a directory. -/
def Opens (t : FileTree) (p : Place) : Prop :=
  ∀ q name, q ++ [name] <+: p → t.node? q = some .dir

/-- A file at a place, with the directories on the way to it. -/
structure Holds (t : FileTree) (p : Place) (b : Bytes) : Prop where
  opens : t.Opens p
  node : t.node? p = some (.file b)

theorem ne_of_prefix_concat {name : String} (h : q ++ [name] <+: p) : q ≠ p := by
  rintro rfl
  have hlength := h.length_le
  rw [List.length_append, List.length_singleton] at hlength
  omega

theorem prefix_of_prefix_concat {name : String} (h : q ++ [name] <+: p) : q <+: p :=
  (List.prefix_append q [name]).trans h

theorem node?_of_isBase (h : p.isBase = true) : t.node? p = some .dir := by
  rw [node?, if_pos h]

theorem isBase_eq_false (h : t.node? p ≠ some .dir) : p.isBase = false :=
  Bool.eq_false_iff.2 fun hbase => h (node?_of_isBase hbase)

theorem Holds.node_ne (h : t.Holds p b) : t.node? p ≠ some .dir := by
  rw [h.node]
  exact fun heq => (nomatch heq)

theorem opensAlong_nil (t : FileTree) (p : Place) : t.OpensAlong p [] := by
  intro q name hq
  exact absurd (List.prefix_nil.1 hq) (by simp)

theorem opensAlong_cons {name : String} {names : List String} :
    t.OpensAlong p (name :: names) ↔ t.node? p = some .dir ∧ t.OpensAlong (p ++ [name]) names := by
  constructor
  · intro h
    refine ⟨?_, fun q n hq => ?_⟩
    · have hself := h [] name (by simp)
      rwa [List.append_nil] at hself
    · have hbelow := h (name :: q) n (List.cons_prefix_cons.2 ⟨rfl, hq⟩)
      rwa [List.append_assoc, List.singleton_append]
  · rintro ⟨hself, hbelow⟩ q n hq
    -- the first place is where the names start, every other one lies below the first name
    cases q with
    | nil =>
        rwa [List.append_nil]
    | cons first q =>
        rw [List.cons_append, List.cons_prefix_cons] at hq
        have hdir := hbelow q n hq.2
        rw [hq.1]
        rwa [List.append_assoc, List.singleton_append] at hdir

theorem follow_cons_eq_ok_iff {name : String} {names : List String} {r : Place} :
    t.follow p (name :: names) = .ok r ↔
      t.node? p = some .dir ∧ t.follow (p.step name) names = .ok r := by
  rw [follow]
  cases hnode : t.node? p with
  | none =>
      simp
  | some n =>
      cases n with
      | file b =>
          simp
      | dir =>
          simp

theorem follow_eq_ok_iff {names : List String} {r : Place} (h : Place.ParentsFirst p names) :
    t.follow p names = .ok r ↔ r = p ++ names ∧ t.OpensAlong p names := by
  induction names generalizing p with
  | nil =>
      rw [follow, List.append_nil, Except.ok.injEq, eq_comm]
      exact (and_iff_left (t.opensAlong_nil p)).symm
  | cons name rest ih =>
      have hplace : p ++ [name] ++ rest = p ++ name :: rest := by
        rw [List.append_assoc, List.singleton_append]
      rw [follow_cons_eq_ok_iff, h.step_eq, ih h.rest, hplace, opensAlong_cons, and_left_comm]

/-- The steps of a path are its elements as they are written, less those that lead nowhere. -/
theorem steps_eq_map (path : String) : steps path =
    ((path.toList.splitOn '/').filter fun e => !e.isEmpty && e != ['.']).map String.ofList := by
  have hkeep : (fun s : String => !s.isEmpty && s != ".") ∘ String.ofList =
      fun e : List Char => !e.isEmpty && e != ['.'] := by
    funext e
    have hempty : (String.ofList e).isEmpty = e.isEmpty := by
      rw [Bool.eq_iff_iff]
      simp
    have hdot : (String.ofList e != ".") = (e != ['.']) := by
      rw [Bool.eq_iff_iff, bne_iff_ne, bne_iff_ne]
      exact not_congr ⟨fun heq => by simpa using congrArg String.toList heq, fun heq => by rw [heq]⟩
    rw [Function.comp_apply, hempty, hdot]
  rw [steps, Text.pieces, List.filter_map, hkeep]

theorem steps_eq (h : IsClean path) : steps path = (elements path).map String.ofList := by
  have hpieces : (path.toList.splitOn '/').filter (fun e => !e.isEmpty && e != ['.']) =
      elements path := by
    have hspell := clean_eq_spell path
    rw [h] at hspell
    split at hspell
    · next hnone =>
        rw [hnone.2, hspell]
        rfl
    · rw [congrArg String.toList hspell, String.toList_ofList]
      exact splitOn_spell fun e he => mem_elements he
  rw [steps_eq_map, hpieces]

/-- A cleaned path is followed name by name. -/
theorem resolve_eq_ok_iff (h : IsClean path) {r : Place} :
    t.resolve path = .ok r ↔ r = Place.ofPath path ∧ t.Opens r := by
  have hempty : path.isEmpty = false := by simpa using h.ne_empty
  have hopens : t.Opens (Place.ofPath path) ↔
      t.OpensAlong (if isRooted path then ["/"] else []) ((elements path).map String.ofList) := by
    rw [Place.ofPath]
    cases isRooted path with
    | false =>
        rfl
    | true =>
        -- the root is followed from above everything
        have hroot : t.node? [] = some .dir := node?_of_isBase rfl
        exact opensAlong_cons.trans (and_iff_right hroot)
  rw [resolve, hempty, if_neg Bool.false_ne_true, steps_eq h,
    follow_eq_ok_iff (Place.parentsFirst_ofPath path), ← Place.ofPath, ← hopens]
  refine and_congr_right fun hr => ?_
  rw [hr]

theorem look_eq_ok_iff (h : IsClean path) {n : FileNode} :
    t.look path = .ok n ↔ t.Opens (Place.ofPath path) ∧ t.node? (Place.ofPath path) = some n := by
  rw [look]
  cases hresolve : t.resolve path with
  | error r =>
      refine ⟨fun hn => (nomatch hn), fun hn => ?_⟩
      rw [(resolve_eq_ok_iff h).2 ⟨rfl, hn.1⟩] at hresolve
      cases hresolve
  | ok r =>
      rcases (resolve_eq_ok_iff h).1 hresolve with ⟨rfl, hopens⟩
      cases hnode : t.node? (Place.ofPath path) with
      | none =>
          simp [hnode]
      | some n' =>
          simp [hnode, hopens]

theorem read_eq_ok_iff (h : IsClean path) :
    t.read path = .ok b ↔ t.Holds (Place.ofPath path) b := by
  have hlook := fun n => look_eq_ok_iff (t := t) h (n := n)
  rw [read]
  constructor
  · intro hread
    split at hread
    · cases hread
    · cases hread
    · next b' hb =>
        rcases (hlook _).1 hb with ⟨hopens, hnode⟩
        cases hread
        exact ⟨hopens, hnode⟩
  · intro hholds
    rw [(hlook _).2 ⟨hholds.opens, hholds.node⟩]

theorem exists?_iff (h : IsClean path) : t.exists? path = true ↔
    ∃ n, t.Opens (Place.ofPath path) ∧ t.node? (Place.ofPath path) = some n := by
  rw [exists?]
  cases hlook : t.look path with
  | ok n =>
      exact ⟨fun _ => ⟨n, (look_eq_ok_iff h).1 hlook⟩, fun _ => rfl⟩
  | error r =>
      refine ⟨fun hfalse => (nomatch hfalse), fun ⟨n, hn⟩ => ?_⟩
      rw [(look_eq_ok_iff h).2 hn] at hlook
      cases hlook

/-! ## Setting and erasing nodes -/

theorem node?_set_of_ne {n : FileNode} (h : q ≠ p) : (t.set p n).node? q = t.node? q := by
  have hne : (q == p) = false := beq_eq_false_iff_ne.2 h
  have hlookup := lookup_filter_fst (fun x : Place => x != p) t.entries q
  rw [bne_iff_ne.2 h, if_pos rfl] at hlookup
  rw [node?, node?, set, List.lookup_append, hlookup, List.lookup_cons, hne, List.lookup_nil,
    Option.or_none]

theorem node?_set_self {n : FileNode} (h : p.isBase = false) : (t.set p n).node? p = some n := by
  have hlookup := lookup_filter_fst (fun x : Place => x != p) t.entries p
  rw [bne_self_eq_false, if_neg Bool.false_ne_true] at hlookup
  rw [node?, h, if_neg Bool.false_ne_true, set, List.lookup_append, hlookup]
  simp

theorem node?_erase (t : FileTree) (p q : Place) :
    (t.erase p).node? q = if q.isBase then some .dir else if p <+: q then none else t.node? q := by
  rw [node?, node?]
  split
  · rfl
  · have hlookup := lookup_filter_fst (fun x : Place => !isWithin x p) t.entries q
    rw [erase, hlookup]
    by_cases hq : p <+: q
    · have hwithin : isWithin q p = true := List.isPrefixOf_iff_prefix.2 hq
      rw [hwithin, if_pos hq]
      rfl
    · have hwithin : isWithin q p = false :=
        Bool.eq_false_iff.2 fun h => hq (List.isPrefixOf_iff_prefix.1 h)
      rw [hwithin, if_neg hq]
      rfl

/-! ## Making directories -/

/-- Whether the next directory has to be made or is there, the rest starts with it in place. -/
theorem exists_makeBelow_cons {done : Place} {name : String} (names : List String)
    (h : ∀ b, t.node? (done ++ [name]) ≠ some (.file b)) :
    ∃ t₁ : FileTree, t.makeBelow done (name :: names) = t₁.makeBelow (done ++ [name]) names ∧
      t₁.node? (done ++ [name]) = some .dir ∧
      ∀ p, p ≠ done ++ [name] → t₁.node? p = t.node? p := by
  rw [makeBelow]
  cases hnode : t.node? (done ++ [name]) with
  | none =>
      have hbase : (done ++ [name]).isBase = false := by
        refine isBase_eq_false (t := t) ?_
        rw [hnode]
        exact fun heq => (nomatch heq)
      exact ⟨t.set (done ++ [name]) .dir, rfl, node?_set_self hbase, fun p hp => node?_set_of_ne hp⟩
  | some n =>
      cases n with
      | dir =>
          exact ⟨t, rfl, hnode, fun _ _ => rfl⟩
      | file b =>
          exact absurd hnode (h b)

theorem makeBelow_eq_ok {done : Place} {names : List String} (hdone : t.node? done = some .dir)
    (h : ∀ q, q <+: done ++ names → ∀ b, t.node? q ≠ some (.file b)) :
    ∃ t', t.makeBelow done names = .ok t' ∧
      (∀ q, q <+: names → t'.node? (done ++ q) = some .dir) ∧
      ∀ p, p <+: done ∨ ¬ p <+: done ++ names → t'.node? p = t.node? p := by
  induction names generalizing done t with
  | nil =>
      refine ⟨t, rfl, fun q hq => ?_, fun _ _ => rfl⟩
      rw [List.prefix_nil.1 hq, List.append_nil]
      exact hdone
  | cons name rest ih =>
      have hplace : done ++ name :: rest = done ++ [name] ++ rest := by
        rw [List.append_assoc, List.singleton_append]
      have hnext : done ++ [name] <+: done ++ name :: rest := hplace ▸ List.prefix_append _ rest
      rcases exists_makeBelow_cons rest (h _ hnext) with ⟨t₁, hmake, hdir, hsame⟩
      have hfree : ∀ q, q <+: done ++ [name] ++ rest → ∀ b, t₁.node? q ≠ some (.file b) := by
        intro q hq b hnode
        by_cases hself : q = done ++ [name]
        · rw [hself, hdir] at hnode
          cases hnode
        · rw [hsame q hself] at hnode
          exact h q (hplace ▸ hq) b hnode
      rcases ih hdir hfree with ⟨t', hok, hdirs, hkeep⟩
      -- neither the first directory nor the rest is at a place above, or off the way
      have habove : ∀ p, p <+: done ∨ ¬ p <+: done ++ name :: rest → t'.node? p = t.node? p := by
        rintro p (hp | hp)
        · have hne : p ≠ done ++ [name] := by
            rintro rfl
            exact ne_of_prefix_concat hp rfl
          exact (hkeep p (Or.inl (hp.trans (List.prefix_append _ _)))).trans (hsame p hne)
        · have hne : p ≠ done ++ [name] := by
            rintro rfl
            exact hp hnext
          exact (hkeep p (Or.inr (hplace ▸ hp))).trans (hsame p hne)
      refine ⟨t', hmake.trans hok, fun q hq => ?_, habove⟩
      cases q with
      | nil =>
          rw [List.append_nil, habove done (Or.inl List.prefix_rfl), hdone]
      | cons first q =>
          rcases List.cons_prefix_cons.1 hq with ⟨rfl, hbelow⟩
          have hdir' := hdirs q hbelow
          rwa [List.append_assoc, List.singleton_append] at hdir'

/-- Directories can be made where no file is on the way, and nothing else changes. -/
theorem makeDirs_eq_ok (h : ∀ q, q <+: Place.ofPath path → ∀ b, t.node? q ≠ some (.file b)) :
    ∃ t', t.makeDirs path = .ok t' ∧ (∀ q, q <+: Place.ofPath path → t'.node? q = some .dir) ∧
      ∀ q, ¬ q <+: Place.ofPath path → t'.node? q = t.node? q := by
  have hnil : t.node? [] = some .dir := node?_of_isBase rfl
  rcases makeBelow_eq_ok hnil h with ⟨t', hok, hdirs, hkeep⟩
  exact ⟨t', hok, hdirs, fun p hp => hkeep p (Or.inr hp)⟩

/-! ## Writing files -/

theorem write_eq_ok_iff (h : IsClean path) :
    t.write path b = .ok t' ↔ t.Opens (Place.ofPath path) ∧
      t.node? (Place.ofPath path) ≠ some .dir ∧ t' = t.set (Place.ofPath path) (.file b) := by
  rw [write]
  cases hresolve : t.resolve path with
  | error r =>
      refine ⟨fun hok => (nomatch hok), fun hall => ?_⟩
      rw [(resolve_eq_ok_iff h).2 ⟨rfl, hall.1⟩] at hresolve
      cases hresolve
  | ok p =>
      rcases (resolve_eq_ok_iff h).1 hresolve with ⟨rfl, hopens⟩
      dsimp only
      split
      · next hdir =>
          have hnode : t.node? (Place.ofPath path) = some .dir := beq_iff_eq.1 hdir
          exact ⟨fun hok => (nomatch hok), fun hall => absurd hnode hall.2.1⟩
      · next hfree =>
          refine ⟨fun hok => ?_, fun hall => by rw [hall.2.2]⟩
          cases hok
          exact ⟨hopens, fun hnode => hfree (beq_iff_eq.2 hnode), rfl⟩

theorem holds_set (hopens : t.Opens p) (hp : t.node? p ≠ some .dir) :
    (t.set p (.file b)).Holds p b := by
  refine ⟨fun q name hq => ?_, node?_set_self (isBase_eq_false hp)⟩
  rw [node?_set_of_ne (ne_of_prefix_concat hq), hopens q name hq]

/-- Every other file is where it was, since none of them lies below the one that is written. -/
theorem Holds.set {n : FileNode} {b' : Bytes} (hq : t.Holds q b') (hp : t.node? p ≠ some .dir)
    (hne : q ≠ p) : (t.set p n).Holds q b' := by
  refine ⟨fun r name hr => ?_, (node?_set_of_ne hne).trans hq.node⟩
  have hdir := hq.opens r name hr
  refine (node?_set_of_ne ?_).trans hdir
  rintro rfl
  exact hp hdir

/-- A tree with a file put at a place, and the directories on the way. -/
structure Puts (t t' : FileTree) (p : Place) (b : Bytes) : Prop where
  dirs : ∀ q, q <+: p → q ≠ p → t'.node? q = some .dir
  file : t'.node? p = some (.file b)
  rest : ∀ q, ¬ q <+: p → t'.node? q = t.node? q

theorem Puts.holds (h : Puts t t' p b) : t'.Holds p b := by
  refine ⟨fun q name hq => ?_, h.file⟩
  exact h.dirs q (prefix_of_prefix_concat hq) (ne_of_prefix_concat hq)

/-- A file that is not on the way stays where it is, unless a directory is replaced. -/
theorem Puts.keeps (h : Puts t t' p b) (hnode : t.node? p ≠ some .dir) {b' : Bytes}
    (hq : t.Holds q b') (hway : ¬ q <+: p) : t'.Holds q b' := by
  refine ⟨fun r name hr => ?_, (h.rest q hway).trans hq.node⟩
  by_cases hrp : r <+: p
  · -- a directory above the file may be on the way to the new one, but is not at its place
    refine h.dirs r hrp ?_
    rintro rfl
    exact hnode (hq.opens r name hr)
  · exact (h.rest r hrp).trans (hq.opens r name hr)

/-- A file can be saved where no file is on the way and no directory in its place. -/
theorem exists_puts (h : IsClean path) {above : Place} {name : String}
    (hplace : Place.ofPath path = above ++ [name]) (hname : name ≠ "/")
    (hway : ∀ q, q <+: above → ∀ b, t.node? q ≠ some (.file b))
    (hnode : t.node? (above ++ [name]) ≠ some .dir) (b : Bytes) :
    ∃ t₁ t', t.makeDirs (SlashPath.dir path) = .ok t₁ ∧ t₁.write path b = .ok t' ∧
      Puts t t' (above ++ [name]) b := by
  have hdir : Place.ofPath (SlashPath.dir path) = above := Place.ofPath_dir h hplace hname
  rw [← hdir] at hway
  rcases makeDirs_eq_ok hway with ⟨t₁, hmake, hdirs, hkeep⟩
  rw [hdir] at hdirs hkeep
  -- places on the way to the file are places at and above its directory
  have hbelow : ∀ q, q <+: above ++ [name] → q ≠ above ++ [name] → q <+: above := by
    intro q hq hne
    rcases List.prefix_concat_iff.1 hq with heq | hq
    · exact absurd heq hne
    · exact hq
  have hself : ¬ above ++ [name] <+: above := by
    intro hself
    exact ne_of_prefix_concat hself rfl
  have hopens : t₁.Opens (Place.ofPath path) := by
    rw [hplace]
    intro q n hq
    exact hdirs q (hbelow q (prefix_of_prefix_concat hq) (ne_of_prefix_concat hq))
  have hfree : t₁.node? (Place.ofPath path) ≠ some .dir := by
    rw [hplace, hkeep _ hself]
    exact hnode
  refine ⟨t₁, _, hmake, (write_eq_ok_iff h).2 ⟨hopens, hfree, rfl⟩, ?_, ?_, ?_⟩
  · intro q hq hne
    rw [hplace, node?_set_of_ne hne, hdirs q (hbelow q hq hne)]
  · rw [hplace, node?_set_self (isBase_eq_false hnode)]
  · intro q hq
    have hne : q ≠ above ++ [name] := by
      rintro rfl
      exact hq List.prefix_rfl
    have hq' : ¬ q <+: above := fun hq' => hq (hq'.trans (List.prefix_append _ _))
    rw [hplace, node?_set_of_ne hne, hkeep q hq']

/-! ## Moving files -/

theorem key_le_trans (a b c : Place × FileNode) (hab : decide (a.1.key ≤ b.1.key) = true)
    (hbc : decide (b.1.key ≤ c.1.key) = true) : decide (a.1.key ≤ c.1.key) = true :=
  decide_eq_true (String.le_trans (of_decide_eq_true hab) (of_decide_eq_true hbc))

theorem key_le_total (a b : Place × FileNode) :
    (decide (a.1.key ≤ b.1.key) || decide (b.1.key ≤ a.1.key)) = true := by
  rcases String.le_total a.1.key b.1.key with h | h <;> simp [h]

/-- Sorting by places is stable: the entries of one place keep their order. -/
theorem filter_mergeSort (es : List (Place × FileNode)) (p : Place) :
    (es.mergeSort fun a b => a.1.key ≤ b.1.key).filter (fun e => e.1 == p) =
      es.filter fun e => e.1 == p := by
  have hplace : ∀ e ∈ es.filter (fun e => e.1 == p), e.1 = p := by
    intro e he
    exact beq_iff_eq.1 (List.mem_filter.1 he).2
  have hpairwise : (es.filter fun e => e.1 == p).Pairwise fun a b =>
      decide (a.1.key ≤ b.1.key) = true := by
    refine List.Pairwise.imp_of_mem (fun {a b} ha hb _ => ?_)
      (List.pairwise_of_forall fun _ _ => trivial)
    rw [hplace a ha, hplace b hb]
    exact decide_eq_true (String.le_refl _)
  have htwice : (fun e : Place × FileNode => e.1 == p && e.1 == p) = fun e => e.1 == p :=
    funext fun _ => Bool.and_self _
  -- entries that are in order stay a sublist, and sorting leaves none of them out
  have hsublist : (es.filter fun e => e.1 == p).Sublist
      ((es.mergeSort fun a b => a.1.key ≤ b.1.key).filter fun e => e.1 == p) := by
    have hsub :=
      (List.sublist_mergeSort key_le_trans key_le_total hpairwise List.filter_sublist).filter
      fun e => e.1 == p
    rwa [List.filter_filter, htwice] at hsub
  exact (hsublist.eq_of_length ((List.mergeSort_perm es _).filter _).length_eq.symm).symm

theorem lookup_mergeSort (es : List (Place × FileNode)) (p : Place) :
    (es.mergeSort fun a b => a.1.key ≤ b.1.key).lookup p = es.lookup p := by
  have hlookup : ∀ l : List (Place × FileNode),
      l.lookup p = (l.filter fun e => e.1 == p).lookup p := by
    intro l
    have h := lookup_filter_fst (fun x : Place => x == p) l p
    rw [beq_self_eq_true, if_pos rfl] at h
    exact h.symm
  rw [hlookup, hlookup es, filter_mergeSort]

/-- What is at or below a place is found among the entries there. -/
theorem lookup_below (t : FileTree) (p rel : Place) :
    (t.below p).lookup rel = t.entries.lookup (p ++ rel) := by
  let inside := t.entries.filter fun e => isWithin e.1 p
  have hback : (inside.map fun e => (e.1.drop p.length, e.2)).map (fun e => (p ++ e.1, e.2)) =
      inside := by
    rw [List.map_map]
    refine (List.map_congr_left fun e he => ?_).trans (List.map_id inside)
    have hbelow : p <+: e.1 := List.isPrefixOf_iff_prefix.1 (List.mem_filter.1 he).2
    rw [Function.comp_apply, List.prefix_iff_eq_append.1 hbelow]
    rfl
  calc
    (t.below p).lookup rel = (inside.map fun e => (e.1.drop p.length, e.2)).lookup rel :=
      lookup_mergeSort _ _
    _ = inside.lookup (p ++ rel) := by rw [← lookup_map_append p, hback]
    _ = t.entries.lookup (p ++ rel) := by
      have hself : isWithin (p ++ rel) p = true :=
        List.isPrefixOf_iff_prefix.2 (List.prefix_append _ _)
      have hfilter := lookup_filter_fst (fun x : Place => isWithin x p) t.entries (p ++ rel)
      rw [hself, if_pos rfl] at hfilter
      exact hfilter

/-- What is moved keeps its place relative to what it lies below. -/
theorem node?_transplant (rel : Place) (hbase : (q ++ rel).isBase = false) :
    (t.transplant p q).node? (q ++ rel) = t.entries.lookup (p ++ rel) := by
  have hgone : ((t.erase p).erase q).entries.lookup (q ++ rel) = none := by
    have hnode := node?_erase (t.erase p) q (q ++ rel)
    rwa [node?, hbase, if_neg Bool.false_ne_true, if_neg Bool.false_ne_true,
      if_pos (List.prefix_append _ _)] at hnode
  have hmoved := lookup_map_append q rel (t.below p)
  rw [lookup_below] at hmoved
  rw [node?, hbase, if_neg Bool.false_ne_true, transplant, List.lookup_append, hgone, hmoved]
  rfl

/-- Whatever lies elsewhere is not touched. -/
theorem node?_transplant_elsewhere {r : Place} (hp : ¬ p <+: r) (hq : ¬ q <+: r)
    {n : FileNode} (h : t.node? r = some n) : (t.transplant p q).node? r = some n := by
  have hrest : ((t.erase p).erase q).node? r = some n := by
    rw [node?_erase, node?_erase, if_neg hp, if_neg hq, h]
    split
    · next hbase =>
        rw [← h, node?_of_isBase hbase]
    · rfl
  rw [node?] at hrest ⊢
  split
  · next hbase =>
      rwa [if_pos hbase] at hrest
  · next hbase =>
      rw [if_neg hbase] at hrest
      rw [transplant, List.lookup_append, hrest]
      rfl

/-- Nothing on the way to a place lies at or below one that is no directory. -/
theorem Opens.not_below {r : Place} (h : t.Opens r) (hp : t.node? p ≠ some .dir) (hne : r ≠ p) :
    ¬ p <+: r := by
  rintro ⟨rest, rfl⟩
  cases rest with
  | nil =>
      exact hne (List.append_nil p)
  | cons name rest =>
      refine hp (h p name ⟨rest, ?_⟩)
      rw [List.append_assoc, List.singleton_append]

theorem Holds.transplant {r : Place} (h : t.Holds r b) (hp : t.node? p ≠ some .dir)
    (hq : t.node? q ≠ some .dir) (hrp : r ≠ p) (hrq : r ≠ q) : (t.transplant p q).Holds r b := by
  have hpr := h.opens.not_below hp hrp
  have hqr := h.opens.not_below hq hrq
  refine ⟨fun s name hs => ?_, node?_transplant_elsewhere hpr hqr h.node⟩
  have hsr := prefix_of_prefix_concat hs
  refine node?_transplant_elsewhere (fun hps => ?_) (fun hqs => ?_) (h.opens s name hs)
  · exact hpr (hps.trans hsr)
  · exact hqr (hqs.trans hsr)

/-- Moving a file to its own place changes nothing; otherwise no directory is at the new one. -/
theorem move_file {old new : String} (hold : IsClean old) (hnew : IsClean new)
    (h : t.move old new = .ok t') (hfile : t.Holds (Place.ofPath old) b) :
    (t' = t ∧ Place.ofPath old = Place.ofPath new) ∨
      (t' = t.transplant (Place.ofPath old) (Place.ofPath new) ∧
        Place.ofPath old ≠ Place.ofPath new ∧ t.Opens (Place.ofPath new) ∧
        t.node? (Place.ofPath new) ≠ some .dir) := by
  have hresolve := (resolve_eq_ok_iff hold).2 ⟨rfl, hfile.opens⟩
  have hlook := (look_eq_ok_iff hold).2 ⟨hfile.opens, hfile.node⟩
  -- a place that does not hold the file is another one
  have helsewhere : t.node? (Place.ofPath new) ≠ some (.file b) →
      Place.ofPath old ≠ Place.ofPath new := by
    intro hnode heq
    exact hnode (heq ▸ hfile.node)
  rw [move, hresolve, hlook] at h
  dsimp only at h
  cases htarget : t.resolve new with
  | error r =>
      rw [htarget] at h
      cases h
  | ok q =>
      rcases (resolve_eq_ok_iff hnew).1 htarget with ⟨rfl, hopens⟩
      rw [htarget] at h
      dsimp only at h
      cases hnode : t.node? (Place.ofPath new) with
      | none =>
          have hne : Place.ofPath old ≠ Place.ofPath new :=
            helsewhere (by rw [hnode]; exact fun heq => (nomatch heq))
          rw [hnode] at h
          dsimp only at h
          split at h
          · cases h
          · cases h
            exact Or.inr ⟨rfl, hne, hopens, fun heq => (nomatch heq)⟩
      | some n =>
          cases n with
          | dir =>
              have hne : (Place.ofPath old == Place.ofPath new) = false :=
                beq_eq_false_iff_ne.2 (helsewhere (by rw [hnode]; exact fun heq => (nomatch heq)))
              rw [hnode, hne] at h
              cases h
          | file b' =>
              rw [hnode] at h
              dsimp only at h
              rw [if_neg (by simp)] at h
              split at h
              · next hsame =>
                  cases h
                  exact Or.inl ⟨rfl, beq_iff_eq.1 hsame⟩
              · next hother =>
                  cases h
                  exact Or.inr ⟨rfl, fun heq => hother (beq_iff_eq.2 heq), hopens,
                    fun heq => (nomatch heq)⟩

/-- A moved file is found at its new path, and every other file that is not replaced where it
was. -/
theorem holds_of_move {old new : String} (hold : IsClean old) (hnew : IsClean new)
    (h : t.move old new = .ok t') (hfile : t.Holds (Place.ofPath old) b) :
    t'.Holds (Place.ofPath new) b ∧
      ∀ r b', r ≠ Place.ofPath old → r ≠ Place.ofPath new → t.Holds r b' → t'.Holds r b' := by
  have hp := hfile.node_ne
  rcases move_file hold hnew h hfile with ⟨rfl, hsame⟩ | ⟨rfl, hne, hopens, hq⟩
  · exact ⟨hsame ▸ hfile, fun _ _ _ _ hr => hr⟩
  · refine ⟨⟨fun s name hs => ?_, ?_⟩, fun r b' hrp hrq hr => hr.transplant hp hq hrp hrq⟩
    · -- the directories on the way to the new place lie neither below the file nor below that place
      have hsnew := prefix_of_prefix_concat hs
      have hdir := hopens s name hs
      refine node?_transplant_elsewhere (fun hps => ?_) (fun hqs => ?_) hdir
      · exact hopens.not_below hp hne.symm (hps.trans hsnew)
      · exact ne_of_prefix_concat hs (hsnew.eq_of_length_le hqs.length_le)
    · have hentry : t.entries.lookup (Place.ofPath old) = some (.file b) := by
        have hnode := hfile.node
        rwa [node?, isBase_eq_false hp, if_neg Bool.false_ne_true] at hnode
      have hmoved := node?_transplant (t := t) (p := Place.ofPath old) (q := Place.ofPath new) []
      rw [List.append_nil, List.append_nil] at hmoved
      rw [hmoved (isBase_eq_false hq), hentry]

end FileTree
end ApiPages

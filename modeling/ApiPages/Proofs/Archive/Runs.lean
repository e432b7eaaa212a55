import ApiPages.Proofs.Archive.Layout
import ApiPages.Proofs.Files.Trees
import Mathlib.Data.List.Induction

/-!
# Runs of the archive

Whatever operations run on an archive and in whatever order, its files are known: the contents that
were written and the digests that names were last pointed at.

* `Archive.Operation` is a use of the archive, `Archive.runAll` a row of them;
* `Archive.Stores` says what is stored after a row of operations, without looking at files;
* `Archive.Matches` is the invariant: the files below the archive's directory are what is stored.
  `Archive.Matches.after_step` preserves it, `Archive.IsFresh.matches_runAll` has it after every row
  of operations.
-/

namespace ApiPages
namespace Archive

open SlashPath FileTree

/-! ## Operations -/

inductive Operation where
  | write (content : Bytes)
  | read (digest : String)
  | tag (name : RefName) (digest : String)
  | resolve (name : RefName)
  deriving DecidableEq, Repr

/-- Whether the operation is about a name as crates and binaries have them, or about none. -/
def Operation.IsPlain : Operation → Prop
  | .tag name _ | .resolve name => name.IsPlain
  | .write _ | .read _ => True

/-- The files after an operation.  One that fails changes nothing. -/
def step (packing : Packing) (dir : String) (t : FileTree) : Operation → FileTree
  | .write content =>
      match put packing dir t content with
      | .ok (t', _) => t'
      | .error _ => t
  | .tag name digest =>
      match tag dir t name.text digest with
      | .ok t' => t'
      | .error _ => t
  | .read _ | .resolve _ => t

def runAll (packing : Packing) (dir : String) (t : FileTree) (ops : List Operation) : FileTree :=
  ops.foldl (step packing dir) t

/-! ## What is stored -/

/-- The digest at which an operation points a name.  Only a digest can be pointed at. -/
def Operation.pointed? (n : RefName) : Operation → Option String
  | .tag m digest => if m = n ∧ Digest.isValid digest = true then some digest else none
  | _ => none

/-- The digest at which a name was last pointed. -/
def latest? (ops : List Operation) (n : RefName) : Option String :=
  ops.reverse.findSome? (Operation.pointed? n)

theorem latest?_concat (ops : List Operation) (op : Operation) (n : RefName) :
    latest? (ops ++ [op]) n = (op.pointed? n).or (latest? ops n) := by
  rw [latest?, List.reverse_append, List.reverse_singleton, List.singleton_append,
    List.findSome?_cons]
  cases op.pointed? n <;> rfl

/-- The files below the archive's directory after a row of operations. -/
inductive Stores (packing : Packing) (ops : List Operation) : Place → Bytes → Prop where
  | content {c : Bytes} (h : .write c ∈ ops) :
      Stores packing ops (contentTail (Digest.ofBytes c)) (packing.pack c)
  | name {n : RefName} {digest : String} (hplain : n.IsPlain) (h : latest? ops n = some digest) :
      Stores packing ops n.tail (.ofText (digest ++ "\n"))

/-- Contents with the same digest are the same. -/
def Distinct (ops : List Operation) : Prop :=
  ∀ c c', .write c ∈ ops → .write c' ∈ ops → Digest.ofBytes c = Digest.ofBytes c' → c = c'

variable {packing : Packing} {dir : String} {t t' : FileTree} {ops : List Operation} {p : Place}
  {b : Bytes}

theorem Stores.isTail (h : Stores packing ops p b) : IsTail p := by
  cases h with
  | content h =>
      exact .content (Digest.isValid_ofBytes _)
  | name hplain h =>
      exact .name hplain

theorem stores_content_iff {digest : String} (hvalid : Digest.isValid digest = true) :
    Stores packing ops (contentTail digest) b ↔
      ∃ c, .write c ∈ ops ∧ Digest.ofBytes c = digest ∧ b = packing.pack c := by
  constructor
  · intro h
    generalize hp : contentTail digest = p at h
    cases h with
    | content h =>
        exact ⟨_, h, (contentTail_injective hp).symm, rfl⟩
    | name hplain h =>
        exact absurd hp (contentTail_ne_tail hvalid _)
  · rintro ⟨c, hc, rfl, rfl⟩
    exact .content hc

theorem stores_tail_iff {n : RefName} (hplain : n.IsPlain) :
    Stores packing ops n.tail b ↔ ∃ digest,
      latest? ops n = some digest ∧ b = .ofText (digest ++ "\n") := by
  constructor
  · intro h
    generalize hp : n.tail = p at h
    cases h with
    | content h =>
        exact absurd hp.symm (contentTail_ne_tail (Digest.isValid_ofBytes _) _)
    | name hplain' h =>
        rw [← RefName.tail_injective hp] at h
        exact ⟨_, h, rfl⟩
  · rintro ⟨digest, hdigest, rfl⟩
    exact .name hplain hdigest

/-! ## The invariant -/

/-- An archive in which nothing is stored: its directory can be made, and nothing lies below it. -/
structure IsFresh (dir : String) (t : FileTree) : Prop where
  way : ∀ q, q <+: Place.ofPath dir → ∀ b, t.node? q ≠ some (.file b)
  empty : ∀ name rest, IsName name.toList → t.node? (Place.ofPath dir ++ name :: rest) = none

/-- The files below the archive's directory are those that are stored, and directories are only
those they lie in. -/
structure Matches (packing : Packing) (dir : String) (ops : List Operation) (t : FileTree) :
    Prop where
  way : ∀ q, q <+: Place.ofPath dir → ∀ b, t.node? q ≠ some (.file b)
  files : ∀ name rest b, IsName name.toList →
    t.node? (Place.ofPath dir ++ name :: rest) = some (.file b) →
    Stores packing ops (name :: rest) b
  dirs : ∀ name rest, IsName name.toList →
    t.node? (Place.ofPath dir ++ name :: rest) = some .dir →
      rest = [] ∨ ∃ x, name :: rest = ["refs", x]
  holds : ∀ p b, Stores packing ops p b → t.Holds (Place.ofPath dir ++ p) b

theorem IsFresh.matches (h : IsFresh dir t) : Matches packing dir [] t where
  way := h.way
  files name rest b hname hnode := by
    rw [h.empty name rest hname] at hnode
    cases hnode
  dirs name rest hname hnode := by
    rw [h.empty name rest hname] at hnode
    cases hnode
  holds p b hp := by
    cases hp with
    | content h =>
        cases h
    | name hplain h =>
        cases h

theorem Matches.file_stores (h : Matches packing dir ops t) (hp : IsTail p)
    (hnode : t.node? (Place.ofPath dir ++ p) = some (.file b)) : Stores packing ops p b := by
  cases p with
  | nil =>
      exact absurd rfl hp.ne_nil
  | cons name rest =>
      exact h.files name rest b (hp.isName name (List.mem_cons_self ..)) hnode

/-- Where something may be stored there is no directory. -/
theorem Matches.node_ne_dir (h : Matches packing dir ops t) (hp : IsTail p) :
    t.node? (Place.ofPath dir ++ p) ≠ some .dir := by
  intro hnode
  rcases hp.shape with ⟨x, y, hx, rfl⟩ | ⟨x, y, rfl⟩
  · rcases h.dirs x [y] (hp.isName x (by simp)) hnode with hnil | ⟨z, hz⟩
    · cases hnil
    · exact hx (List.cons_eq_cons.1 hz).1
  · rcases h.dirs "refs" [x, y] (hp.isName "refs" (by simp)) hnode with hnil | ⟨z, hz⟩
    · cases hnil
    · cases hz

theorem prefix_append_cases {q above : Place} (h : q <+: above ++ p) :
    q <+: above ∨ ∃ r, q = above ++ r ∧ r <+: p := by
  rcases List.prefix_or_prefix_of_prefix h (List.prefix_append above p) with h' | ⟨r, rfl⟩
  · exact Or.inl h'
  · exact Or.inr ⟨r, rfl, (List.prefix_append_right_inj above).1 h⟩

/-- On the way to where something may be stored there is no file. -/
theorem Matches.way_tail (h : Matches packing dir ops t) (hp : IsTail p) {q : Place}
    (hq : q <+: Place.ofPath dir ++ p) (hne : q ≠ Place.ofPath dir ++ p) (b : Bytes) :
    t.node? q ≠ some (.file b) := by
  rcases prefix_append_cases hq with hq | ⟨r, rfl, hr⟩
  · exact h.way q hq b
  · intro hnode
    cases r with
    | nil =>
        rw [List.append_nil] at hnode
        exact h.way _ List.prefix_rfl b hnode
    | cons name rest =>
        -- a file there would be stored, and nothing is stored above what is stored
        have hname : IsName name.toList := hp.isName name (hr.subset (List.mem_cons_self ..))
        have hstored := h.files name rest b hname hnode
        exact hne (by rw [hp.eq_of_prefix hstored.isTail hr])

/-- Something can be saved in its place. -/
theorem Matches.exists_puts (h : Matches packing dir ops t) (hp : IsTail p) {path : String}
    (hclean : IsClean path) (hplace : Place.ofPath path = Place.ofPath dir ++ p) (b : Bytes) :
    ∃ t₁ t', t.makeDirs (SlashPath.dir path) = .ok t₁ ∧ t₁.write path b = .ok t' ∧
      Puts t t' (Place.ofPath dir ++ p) b := by
  rcases List.eq_nil_or_concat' p with rfl | ⟨front, last, rfl⟩
  · exact absurd rfl hp.ne_nil
  · have hlast : IsName last.toList := hp.isName last (by simp)
    have hslash : last ≠ "/" := by
      rintro rfl
      exact hlast.2.2.2 (by decide)
    have hway : ∀ q, q <+: Place.ofPath dir ++ front → ∀ b, t.node? q ≠ some (.file b) := by
      intro q hq b
      refine h.way_tail hp (hq.trans (by simp)) ?_ b
      rintro rfl
      have hlength := hq.length_le
      simp only [List.length_append, List.length_singleton] at hlength
      omega
    have hnode := h.node_ne_dir hp
    rw [← List.append_assoc] at hplace hnode ⊢
    exact FileTree.exists_puts hclean hplace hslash hway hnode b

/-- Saving something in its place stores it there and nothing else. -/
theorem Matches.puts {ops' : List Operation} (h : Matches packing dir ops t) (hp : IsTail p)
    (hputs : Puts t t' (Place.ofPath dir ++ p) b)
    (hstores : ∀ q b', Stores packing ops' q b' ↔
      q = p ∧ b' = b ∨ q ≠ p ∧ Stores packing ops q b') :
    Matches packing dir ops' t' where
  way q hq b' hnode := by
    have hself : q ≠ Place.ofPath dir ++ p := by
      rintro rfl
      refine hp.ne_nil (List.length_eq_zero_iff.1 ?_)
      have hlength := hq.length_le
      rw [List.length_append] at hlength
      omega
    -- what lies above the archive is above the new file, so it is a directory
    rw [hputs.dirs q (hq.trans (List.prefix_append _ _)) hself] at hnode
    cases hnode
  files name rest b' hname hnode := by
    refine (hstores _ _).2 ?_
    by_cases hself : name :: rest = p
    · rw [hself, hputs.file] at hnode
      cases hnode
      exact Or.inl ⟨hself, rfl⟩
    · refine Or.inr ⟨hself, ?_⟩
      by_cases hbelow : name :: rest <+: p
      · have hdir := hputs.dirs (Place.ofPath dir ++ name :: rest)
          ((List.prefix_append_right_inj _).2 hbelow) fun heq => hself (List.append_cancel_left heq)
        rw [hdir] at hnode
        cases hnode
      · rw [hputs.rest _ fun hall => hbelow ((List.prefix_append_right_inj _).1 hall)] at hnode
        exact h.files name rest b' hname hnode
  dirs name rest hname hnode := by
    by_cases hbelow : name :: rest <+: p
    · -- a directory on the way to the new file may be new, but it is one that may be there
      refine hp.above hbelow fun hself => ?_
      rw [hself, hputs.file] at hnode
      cases hnode
    · rw [hputs.rest _ fun hall => hbelow ((List.prefix_append_right_inj _).1 hall)] at hnode
      exact h.dirs name rest hname hnode
  holds q b' hq := by
    rcases (hstores q b').1 hq with ⟨rfl, rfl⟩ | ⟨hne, hold⟩
    · exact hputs.holds
    · -- what is stored elsewhere does not lie on the way to the new file
      refine hputs.keeps (h.node_ne_dir hp) (h.holds q b' hold) fun hall => ?_
      exact hne (hp.eq_of_prefix hold.isTail ((List.prefix_append_right_inj _).1 hall))

/-! ## Single operations -/

theorem Matches.holds_iff (h : Matches packing dir ops t) (hp : IsTail p) :
    t.Holds (Place.ofPath dir ++ p) b ↔ Stores packing ops p b :=
  ⟨fun hholds => h.file_stores hp hholds.node, h.holds p b⟩

theorem doing_ok {α : Type} (what : String) (a : α) : doing what (.ok a) = .ok a := rfl

theorem put_new {content : Bytes}
    (h : t.exists? (contentPath dir (Digest.ofBytes content)) = false) :
    put packing dir t content =
      (doing "creating CAS directory"
        (t.makeDirs (SlashPath.dir (contentPath dir (Digest.ofBytes content))))).bind fun t =>
          (doing "writing CAS file"
            (t.write (contentPath dir (Digest.ofBytes content)) (packing.pack content))).bind
              fun t => .ok (t, Digest.ofBytes content) := by
  unfold put
  rw [if_neg (by rw [h]; exact Bool.false_ne_true)]
  rfl

/-- Storing a content never fails.  If its place is taken nothing changes, otherwise it is put
there. -/
theorem Matches.put_eq (h : Matches packing dir ops t) (content : Bytes) :
    ∃ t', put packing dir t content = .ok (t', Digest.ofBytes content) ∧
      ((∃ b, Stores packing ops (contentTail (Digest.ofBytes content)) b) ∧ t' = t ∨
        (∀ b, ¬ Stores packing ops (contentTail (Digest.ofBytes content)) b) ∧
          Puts t t' (Place.ofPath dir ++ contentTail (Digest.ofBytes content))
            (packing.pack content)) := by
  have hvalid := Digest.isValid_ofBytes content
  have hp := IsTail.content hvalid
  have hplace := ofPath_contentPath dir hvalid
  have hclean := isClean_contentPath dir hvalid
  cases hexists : t.exists? (contentPath dir (Digest.ofBytes content)) with
  | true =>
      refine ⟨t, ?_, Or.inl ⟨?_, rfl⟩⟩
      · unfold put
        rw [if_pos hexists]
        rfl
      · rcases (exists?_iff hclean).1 hexists with ⟨n, -, hnode⟩
        rw [hplace] at hnode
        cases n with
        | dir =>
            exact absurd hnode (h.node_ne_dir hp)
        | file b =>
            exact ⟨b, h.file_stores hp hnode⟩
  | false =>
      rcases h.exists_puts hp hclean hplace (packing.pack content) with
        ⟨t₁, t', hmake, hwrite, hputs⟩
      refine ⟨t', ?_, Or.inr ⟨fun b hb => ?_, hputs⟩⟩
      · rw [put_new hexists, hmake, doing_ok, Except.bind, hwrite, doing_ok]
        rfl
      · -- what is stored would be found, so the place would be taken
        have hholds := h.holds _ b hb
        have htaken := (exists?_iff hclean).2 ⟨_, hplace ▸ hholds.opens, hplace ▸ hholds.node⟩
        rw [hexists] at htaken
        cases htaken

theorem tag_valid (dir : String) (t : FileTree) (name : String) {digest : String}
    (h : Digest.isValid digest = true) :
    tag dir t name digest =
      (doing "creating refs directory" (t.makeDirs (SlashPath.dir (namePath dir name)))).bind
        fun t => doing ("writing ref " ++ name)
          (t.write (namePath dir name) (.ofText (digest ++ "\n"))) := by
  unfold tag
  rw [h]
  rfl

/-- Pointing a name at a digest never fails. -/
theorem Matches.tag_eq (h : Matches packing dir ops t) {n : RefName} (hn : n.IsPlain)
    {digest : String} (hvalid : Digest.isValid digest = true) :
    ∃ t', tag dir t n.text digest = .ok t' ∧
      Puts t t' (Place.ofPath dir ++ n.tail) (.ofText (digest ++ "\n")) := by
  rcases h.exists_puts (.name hn) (isClean_namePath dir hn) (ofPath_namePath dir hn)
    (.ofText (digest ++ "\n")) with ⟨t₁, t', hmake, hwrite, hputs⟩
  refine ⟨t', ?_, hputs⟩
  rw [tag_valid dir t n.text hvalid, hmake, doing_ok, Except.bind, hwrite, doing_ok]

/-- What is no digest cannot be pointed at. -/
theorem tag_invalid (dir : String) (t : FileTree) (name : String) {digest : String}
    (h : Digest.isValid digest = false) :
    tag dir t name digest = .error (.invalidDigest none digest) := by
  unfold tag
  rw [h]
  rfl

theorem get_invalid (dir : String) (t : FileTree) {digest : String}
    (h : Digest.isValid digest = false) :
    get packing dir t digest = .error (.invalidDigest none digest) := by
  rw [get, h]
  rfl

/-! ## Preserving the invariant -/

theorem stores_quiet {op : Operation} (hwrite : ∀ c, op ≠ .write c)
    (hpointed : ∀ n, op.pointed? n = none) :
    Stores packing (ops ++ [op]) p b ↔ Stores packing ops p b := by
  have hlatest : ∀ n, latest? (ops ++ [op]) n = latest? ops n := by
    intro n
    rw [latest?_concat, hpointed n]
    rfl
  constructor
  · intro h
    cases h with
    | @content c h =>
        refine .content ?_
        rcases List.mem_append.1 h with h | h
        · exact h
        · exact absurd (List.mem_singleton.1 h).symm (hwrite c)
    | name hplain h =>
        exact .name hplain (hlatest _ ▸ h)
  · intro h
    cases h with
    | content h =>
        exact .content (List.mem_append_left _ h)
    | name hplain h =>
        exact .name hplain ((hlatest _).trans h)

theorem stores_write {content : Bytes} :
    Stores packing (ops ++ [.write content]) p b ↔
      p = contentTail (Digest.ofBytes content) ∧ b = packing.pack content ∨
        Stores packing ops p b := by
  have hlatest : ∀ n, latest? (ops ++ [.write content]) n = latest? ops n := by
    intro n
    rw [latest?_concat]
    rfl
  constructor
  · intro h
    cases h with
    | content h =>
        rcases List.mem_append.1 h with h | h
        · exact Or.inr (.content h)
        · cases List.mem_singleton.1 h
          exact Or.inl ⟨rfl, rfl⟩
    | name hplain h =>
        exact Or.inr (.name hplain (hlatest _ ▸ h))
  · rintro (⟨rfl, rfl⟩ | h)
    · exact .content (List.mem_append_right _ (List.mem_singleton_self _))
    · cases h with
      | content h =>
          exact .content (List.mem_append_left _ h)
      | name hplain h =>
          exact .name hplain ((hlatest _).trans h)

theorem stores_tag {n : RefName} (hn : n.IsPlain) {digest : String}
    (hvalid : Digest.isValid digest = true) :
    Stores packing (ops ++ [.tag n digest]) p b ↔
      p = n.tail ∧ b = .ofText (digest ++ "\n") ∨ p ≠ n.tail ∧ Stores packing ops p b := by
  have hself : latest? (ops ++ [.tag n digest]) n = some digest := by
    rw [latest?_concat, Operation.pointed?, if_pos ⟨rfl, hvalid⟩]
    rfl
  have hother : ∀ m, m ≠ n → latest? (ops ++ [.tag n digest]) m = latest? ops m := by
    intro m hm
    rw [latest?_concat, Operation.pointed?, if_neg fun h => hm h.1.symm]
    rfl
  constructor
  · intro h
    cases h with
    | content h =>
        refine Or.inr ⟨contentTail_ne_tail (Digest.isValid_ofBytes _) n, .content ?_⟩
        rcases List.mem_append.1 h with h | h
        · exact h
        · cases List.mem_singleton.1 h
    | @name m digest' hplain h =>
        by_cases hm : m = n
        · subst hm
          rw [hself] at h
          cases h
          exact Or.inl ⟨rfl, rfl⟩
        · exact Or.inr ⟨fun heq => hm (RefName.tail_injective heq), .name hplain (hother m hm ▸ h)⟩
  · rintro (⟨rfl, rfl⟩ | ⟨hne, h⟩)
    · exact .name hn hself
    · cases h with
      | content h =>
          exact .content (List.mem_append_left _ h)
      | @name m digest' hplain h =>
          refine .name hplain ((hother m fun heq => ?_).trans h)
          exact hne (by rw [heq])

theorem Matches.congr {ops' : List Operation} (h : Matches packing dir ops t)
    (hstores : ∀ q b, Stores packing ops' q b ↔ Stores packing ops q b) :
    Matches packing dir ops' t where
  way := h.way
  files name rest b hname hnode := (hstores _ _).2 (h.files name rest b hname hnode)
  dirs := h.dirs
  holds p b hp := h.holds p b ((hstores p b).1 hp)

theorem Matches.after_step {op : Operation} (h : Matches packing dir ops t) (hplain : op.IsPlain)
    (hdistinct : Distinct (ops ++ [op])) :
    Matches packing dir (ops ++ [op]) (step packing dir t op) := by
  cases op with
  | write content =>
      have hvalid := Digest.isValid_ofBytes content
      rcases h.put_eq content with ⟨t', hput, hcases⟩
      have hstep : step packing dir t (.write content) = t' := by
        rw [step, hput]
      rw [hstep]
      rcases hcases with ⟨⟨b, hb⟩, rfl⟩ | ⟨hnew, hputs⟩
      · -- what is there has the digest of the content, so it is the content
        rcases (stores_content_iff hvalid).1 hb with ⟨c, hc, hdigest, -⟩
        have hself : c = content :=
          hdistinct c content (List.mem_append_left _ hc) (by simp) hdigest
        refine h.congr fun q b' => stores_write.trans (or_iff_right_of_imp ?_)
        rintro ⟨rfl, rfl⟩
        exact (stores_content_iff hvalid).2 ⟨content, hself ▸ hc, rfl, rfl⟩
      · -- the place was free, so nothing that was stored is replaced
        refine h.puts (.content hvalid) hputs fun q b' => stores_write.trans ?_
        refine or_congr_right ⟨fun hq => ⟨?_, hq⟩, fun hq => hq.2⟩
        rintro rfl
        exact hnew b' hq
  | tag n digest =>
      cases hvalid : Digest.isValid digest with
      | true =>
          rcases h.tag_eq hplain hvalid with ⟨t', htag, hputs⟩
          have hstep : step packing dir t (.tag n digest) = t' := by
            rw [step, htag]
          rw [hstep]
          exact h.puts (.name hplain) hputs fun q b' => stores_tag hplain hvalid
      | false =>
          have hstep : step packing dir t (.tag n digest) = t := by
            rw [step, tag_invalid dir t n.text hvalid]
          rw [hstep]
          refine h.congr fun q b' => stores_quiet (fun c heq => nomatch heq) fun m => ?_
          rw [Operation.pointed?, if_neg fun hboth => ?_]
          rw [hvalid] at hboth
          exact Bool.false_ne_true hboth.2
  | read digest =>
      exact h.congr fun q b' => stores_quiet (fun c heq => nomatch heq) fun m => rfl
  | resolve n =>
      exact h.congr fun q b' => stores_quiet (fun c heq => nomatch heq) fun m => rfl

theorem runAll_concat (packing : Packing) (dir : String) (t : FileTree) (ops : List Operation)
    (op : Operation) :
    runAll packing dir t (ops ++ [op]) = step packing dir (runAll packing dir t ops) op := by
  rw [runAll, List.foldl_append]
  rfl

theorem Distinct.of_append {ops' : List Operation} (h : Distinct (ops ++ ops')) : Distinct ops :=
  fun c c' hc hc' => h c c' (List.mem_append_left _ hc) (List.mem_append_left _ hc')

/-- After every row of operations the files are those that are stored. -/
theorem IsFresh.matches_runAll (hfresh : IsFresh dir t) (hplain : ∀ op ∈ ops, op.IsPlain)
    (hdistinct : Distinct ops) : Matches packing dir ops (runAll packing dir t ops) := by
  induction ops using List.reverseRecOn with
  | nil =>
      exact hfresh.matches
  | append_singleton ops op ih =>
      rw [runAll_concat]
      refine Matches.after_step ?_ (hplain op (by simp)) hdistinct
      exact ih (fun op' hop' => hplain op' (List.mem_append_left _ hop')) hdistinct.of_append

end Archive
end ApiPages

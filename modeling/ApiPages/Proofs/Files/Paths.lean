import ApiPages.Files.Tree
import ApiPages.Proofs.Text.Endings
import Mathlib.Data.List.Basic

/-!
# Paths and the places they name

A cleaned path is a row of names, with steps to the parent in front only.  So it can be followed
name by name, and cleaning it again changes nothing.

* `SlashPath.Stacked` is the shape of the elements of a path, latest first, and `SlashPath.spell`
  writes elements out;
* `SlashPath.elements_clean` and `Place.ofPath_clean` say that a cleaned path means what the path
  means, `Place.eq_of_ofPath_eq` that it is determined by its place;
* `Place.ofPath_join` and `Place.ofPath_dir` give the places of joined paths and of directories.
-/

namespace ApiPages

namespace SlashPath

/-! ## Elements -/

/-- A name as it stands in a path: not empty, no special element and without a slash. -/
def IsName (e : List Char) : Prop :=
  e ≠ [] ∧ e ≠ ['.'] ∧ e ≠ ['.', '.'] ∧ '/' ∉ e

/-- The elements of a path, latest first: names, below them steps to the parent unless the path is
rooted. -/
def Stacked (rooted : Bool) : List (List Char) → Prop
  | [] => True
  | e :: rest =>
      (e ≠ [] ∧ e ≠ ['.'] ∧ '/' ∉ e) ∧
        (e = ['.', '.'] → rooted = false ∧ ∀ x ∈ rest, x = ['.', '.']) ∧ Stacked rooted rest

theorem splitOn_append_slash (before after : List Char) :
    (before ++ '/' :: after).splitOn '/' = before.splitOn '/' ++ after.splitOn '/' :=
  List.splitOnP_append_cons before after rfl

theorem splitOn_of_not_mem {cs : List Char} (h : '/' ∉ cs) : cs.splitOn '/' = [cs] := by
  have hone : (['/'].intercalate [cs]).splitOn '/' = [cs] :=
    List.splitOn_intercalate '/' (by simpa using h) (by simp)
  simpa using hone

theorem stacked_pushElement {rooted : Bool} {kept : List (List Char)} (h : Stacked rooted kept)
    {e : List Char} (he : '/' ∉ e) : Stacked rooted (pushElement rooted kept e) := by
  unfold pushElement
  split
  · exact h
  · next hskip =>
      have hne : e ≠ [] ∧ e ≠ ['.'] := by simpa using hskip
      split
      · next hparent =>
          have hup : e = ['.', '.'] := by simpa using hparent
          -- a step to the parent takes the latest name away, or stays above the others of its kind
          cases kept with
          | nil =>
              cases rooted with
              | true =>
                  exact trivial
              | false =>
                  exact ⟨⟨hne.1, hne.2, he⟩, fun _ => ⟨rfl, by simp⟩, trivial⟩
          | cons last before =>
              dsimp only
              by_cases hlast : last = ['.', '.']
              · rw [if_pos (beq_iff_eq.2 hlast)]
                refine ⟨⟨hne.1, hne.2, he⟩, fun _ => ⟨(h.2.1 hlast).1, ?_⟩, h⟩
                intro x hx
                rcases List.mem_cons.1 hx with rfl | hx
                · exact hlast
                · exact (h.2.1 hlast).2 x hx
              · rw [if_neg (mt beq_iff_eq.1 hlast)]
                exact h.2.2
      · next hname =>
          have hdown : e ≠ ['.', '.'] := by simpa using hname
          exact ⟨⟨hne.1, hne.2, he⟩, fun hup => absurd hup hdown, h⟩

theorem stacked_foldl {rooted : Bool} {es kept : List (List Char)} (h : Stacked rooted kept)
    (hes : ∀ e ∈ es, '/' ∉ e) : Stacked rooted (es.foldl (pushElement rooted) kept) := by
  induction es generalizing kept with
  | nil =>
      exact h
  | cons e es ih =>
      exact ih (stacked_pushElement h (hes e (List.mem_cons_self ..)))
        fun e' he' => hes e' (List.mem_cons_of_mem _ he')

theorem stacked_elements (p : String) : Stacked (isRooted p) (elements p).reverse := by
  rw [elements, List.reverse_reverse]
  exact stacked_foldl trivial (Text.not_mem_of_mem_splitOn '/' p.toList)

theorem pushElement_name {rooted : Bool} {kept : List (List Char)} {n : List Char} (h : IsName n) :
    pushElement rooted kept n = n :: kept := by
  have hskip : (n.isEmpty || n == ['.']) = false := by simp [h.1, h.2.1]
  have hparent : (n == ['.', '.']) = false := by simp [h.2.2.1]
  unfold pushElement
  rw [hskip, hparent]
  rfl

/-- Elements that stand as they should are pushed back one by one. -/
theorem foldl_pushElement_of_stacked {rooted : Bool} {kept : List (List Char)}
    (h : Stacked rooted kept) : kept.reverse.foldl (pushElement rooted) [] = kept := by
  induction kept with
  | nil =>
      rfl
  | cons e rest ih =>
      rcases h with ⟨⟨hempty, hdot, hslash⟩, hup, hrest⟩
      rw [List.reverse_cons, List.foldl_append, ih hrest, List.foldl_cons, List.foldl_nil]
      by_cases hparent : e = ['.', '.']
      · rcases hup hparent with ⟨rfl, hall⟩
        subst hparent
        cases rest with
        | nil =>
            rfl
        | cons last before =>
            rw [hall last (List.mem_cons_self ..)]
            rfl
      · exact pushElement_name ⟨hempty, hdot, hparent, hslash⟩

theorem Stacked.of_append {rooted : Bool} {latest kept : List (List Char)}
    (h : Stacked rooted (latest ++ kept)) : Stacked rooted kept := by
  induction latest with
  | nil =>
      exact h
  | cons e rest ih =>
      exact ih h.2.2

theorem mem_of_stacked {rooted : Bool} {kept : List (List Char)} (h : Stacked rooted kept) :
    ∀ e ∈ kept, e ≠ [] ∧ e ≠ ['.'] ∧ '/' ∉ e := by
  induction kept with
  | nil =>
      intro e he
      cases he
  | cons e rest ih =>
      intro e' he'
      rcases List.mem_cons.1 he' with rfl | he'
      · exact h.1
      · exact ih h.2.2 e' he'

theorem mem_elements {p : String} {e : List Char} (h : e ∈ elements p) :
    e ≠ [] ∧ e ≠ ['.'] ∧ '/' ∉ e :=
  mem_of_stacked (stacked_elements p) e (List.mem_reverse.2 h)

/-- A step to the parent stands in front, below others of its kind. -/
theorem elements_parent {p : String} {before after : List (List Char)}
    (h : elements p = before ++ ['.', '.'] :: after) :
    isRooted p = false ∧ ∀ e ∈ before, e = ['.', '.'] := by
  have hstacked := stacked_elements p
  rw [h, List.reverse_append, List.reverse_cons, List.append_assoc] at hstacked
  have hup := hstacked.of_append.2.1 rfl
  exact ⟨hup.1, fun e he => hup.2 e (List.mem_reverse.2 he)⟩

/-! ## Cleaned paths -/

/-- The characters of a path with the given elements. -/
def spell (rooted : Bool) (es : List (List Char)) : List Char :=
  if rooted then '/' :: ['/'].intercalate es else ['/'].intercalate es

theorem intercalate_append {es names : List (List Char)} (hes : es ≠ []) (hnames : names ≠ []) :
    ['/'].intercalate (es ++ names) = ['/'].intercalate es ++ '/' :: ['/'].intercalate names := by
  induction es with
  | nil =>
      exact absurd rfl hes
  | cons e rest ih =>
      cases rest with
      | nil =>
          rcases List.exists_cons_of_ne_nil hnames with ⟨n, more, rfl⟩
          rw [List.singleton_append, List.intercalate_cons_cons, List.intercalate_singleton,
            List.append_assoc]
          rfl
      | cons second rest =>
          rw [List.cons_append, List.cons_append, List.intercalate_cons_cons, ← List.cons_append,
            ih (List.cons_ne_nil _ _), List.intercalate_cons_cons]
          simp only [List.append_assoc]

theorem intercalate_concat (es : List (List Char)) (hne : es ≠ []) (e : List Char) :
    ['/'].intercalate (es ++ [e]) = ['/'].intercalate es ++ '/' :: e := by
  rw [intercalate_append hne (List.cons_ne_nil e []), List.intercalate_singleton]

theorem head?_intercalate {es : List (List Char)} (h : ∀ e ∈ es, e ≠ [] ∧ e ≠ ['.'] ∧ '/' ∉ e) :
    (['/'].intercalate es).head? ≠ some '/' := by
  cases es with
  | nil =>
      simp
  | cons e rest =>
      have he := h e (List.mem_cons_self ..)
      -- the first element has a first character, and that is no slash
      rcases List.exists_cons_of_ne_nil he.1 with ⟨c, cs, rfl⟩
      have hc : c ≠ '/' := fun heq => he.2.2 (heq ▸ List.mem_cons_self ..)
      cases rest with
      | nil =>
          simpa using hc
      | cons e' rest =>
          simpa [List.intercalate_cons_cons] using hc

theorem isRooted_spell {rooted : Bool} {es : List (List Char)}
    (h : ∀ e ∈ es, e ≠ [] ∧ e ≠ ['.'] ∧ '/' ∉ e) :
    isRooted (String.ofList (spell rooted es)) = rooted := by
  rw [isRooted, String.toList_ofList, spell]
  cases rooted with
  | true =>
      rfl
  | false =>
      rw [if_neg Bool.false_ne_true, beq_eq_false_iff_ne]
      exact head?_intercalate h

/-- No elements are one empty piece, which is not kept. -/
theorem foldl_splitOn_intercalate {rooted : Bool} {kept es : List (List Char)}
    (h : ∀ e ∈ es, '/' ∉ e) :
    ((['/'].intercalate es).splitOn '/').foldl (pushElement rooted) kept =
      es.foldl (pushElement rooted) kept := by
  by_cases hes : es = []
  · subst hes
    rfl
  · rw [List.splitOn_intercalate '/' h hes]

theorem elements_spell {rooted : Bool} {es : List (List Char)} (h : Stacked rooted es.reverse) :
    elements (String.ofList (spell rooted es)) = es := by
  have hmem : ∀ e ∈ es, e ≠ [] ∧ e ≠ ['.'] ∧ '/' ∉ e :=
    fun e he => mem_of_stacked h e (List.mem_reverse.2 he)
  have hfold : ((spell rooted es).splitOn '/').foldl (pushElement rooted) [] =
      es.foldl (pushElement rooted) [] := by
    cases rooted with
    | true =>
        change (([] ++ '/' :: ['/'].intercalate es).splitOn '/').foldl (pushElement true) [] = _
        rw [splitOn_append_slash, List.foldl_append]
        exact foldl_splitOn_intercalate fun e he => (hmem e he).2.2
    | false =>
        exact foldl_splitOn_intercalate fun e he => (hmem e he).2.2
  have hback := foldl_pushElement_of_stacked h
  rw [List.reverse_reverse] at hback
  rw [elements, isRooted_spell hmem, String.toList_ofList, hfold, hback, List.reverse_reverse]

theorem spell_eq_nil {rooted : Bool} {es : List (List Char)}
    (h : ∀ e ∈ es, e ≠ [] ∧ e ≠ ['.'] ∧ '/' ∉ e) :
    spell rooted es = [] ↔ rooted = false ∧ es = [] := by
  cases rooted with
  | true =>
      simp [spell]
  | false =>
      cases es with
      | nil =>
          simp [spell]
      | cons e rest =>
          have he := (h e (List.mem_cons_self ..)).1
          cases rest <;> simp [spell, List.intercalate_cons_cons, he]

theorem clean_eq_spell (p : String) : clean p =
    if isRooted p = false ∧ elements p = [] then "."
    else String.ofList (spell (isRooted p) (elements p)) := by
  have hnil : spell (isRooted p) (elements p) = [] ↔ isRooted p = false ∧ elements p = [] :=
    spell_eq_nil fun e he => mem_elements he
  rw [clean]
  cases hrooted : isRooted p with
  | true =>
      simp [spell]
  | false =>
      rw [hrooted, spell, if_neg Bool.false_ne_true] at hnil
      simp only [Bool.false_eq_true, if_false, List.isEmpty_iff, spell]
      exact if_congr (hnil.trans (by simp)) rfl rfl

theorem isRooted_clean (p : String) : isRooted (clean p) = isRooted p := by
  rw [clean_eq_spell]
  split
  · next h =>
      rw [h.1]
      rfl
  · exact isRooted_spell fun e he => mem_elements he

theorem elements_clean (p : String) : elements (clean p) = elements p := by
  rw [clean_eq_spell]
  split
  · next h =>
      rw [h.2]
      rfl
  · exact elements_spell (stacked_elements p)

/-- A path that cleaning leaves as it is. -/
def IsClean (p : String) : Prop :=
  clean p = p

theorem isClean_clean (p : String) : IsClean (clean p) := by
  rw [IsClean, clean_eq_spell (clean p), isRooted_clean, elements_clean, ← clean_eq_spell]

theorem isClean_join {parts : List String} {part : String} (h : part ∈ parts) (hne : part ≠ "") :
    IsClean (join parts) := by
  unfold join
  split
  · next hnone =>
      have hkept : part ∈ parts.filter fun p => !p.isEmpty :=
        List.mem_filter.2 ⟨h, by simpa using hne⟩
      rw [hnone] at hkept
      cases hkept
  · exact isClean_clean _

theorem IsClean.ne_empty {p : String} (h : IsClean p) : p ≠ "" := by
  rintro rfl
  exact absurd (show clean "" = "" from h) (by decide)

theorem splitOn_spell {rooted : Bool} {es : List (List Char)}
    (h : ∀ e ∈ es, e ≠ [] ∧ e ≠ ['.'] ∧ '/' ∉ e) :
    ((spell rooted es).splitOn '/').filter (fun e => !e.isEmpty && e != ['.']) = es := by
  have hkept : es.filter (fun e => !e.isEmpty && e != ['.']) = es := by
    refine List.filter_eq_self.2 fun e he => ?_
    simp [(h e he).1, (h e he).2.1]
  have hbody : ((['/'].intercalate es).splitOn '/').filter (fun e => !e.isEmpty && e != ['.']) =
      es := by
    by_cases hes : es = []
    · subst hes
      rfl
    · rw [List.splitOn_intercalate '/' (fun e he => (h e he).2.2) hes, hkept]
  cases rooted with
  | true =>
      change (([] ++ '/' :: ['/'].intercalate es).splitOn '/').filter _ = _
      rw [splitOn_append_slash, List.filter_append, hbody]
      rfl
  | false =>
      exact hbody

/-! ## Directories -/

/-- What stands before the last element of a path: other elements with a slash behind them, or the
root or nothing. -/
def front (rooted : Bool) (es : List (List Char)) : List Char :=
  if es = [] then (if rooted then ['/'] else []) else spell rooted es ++ ['/']

theorem spell_concat (rooted : Bool) (es : List (List Char)) (e : List Char) :
    spell rooted (es ++ [e]) = front rooted es ++ e := by
  unfold front
  by_cases hes : es = []
  · rw [if_pos hes, hes]
    cases rooted <;> simp [spell]
  · rw [if_neg hes]
    cases rooted <;> simp [spell, intercalate_concat es hes]

theorem getLast?_front (rooted : Bool) (es : List (List Char)) :
    (front rooted es).getLast? = some '/' ∨ front rooted es = [] := by
  unfold front
  split
  · cases rooted <;> simp
  · simp

/-- A part of a path without a slash has none when it is read from its end. -/
theorem ne_slash_of_mem_reverse {e : List Char} (h : '/' ∉ e) :
    ∀ c ∈ e.reverse, (c != '/') = true := by
  intro c hc
  have hc' : c ∈ e := List.mem_reverse.1 hc
  exact bne_iff_ne.2 fun heq => h (heq ▸ hc')

theorem beforeLast_append {front e : List Char} (h : '/' ∉ e)
    (hfront : front.getLast? = some '/' ∨ front = []) :
    beforeLast (front ++ e) = front := by
  rw [beforeLast, List.reverse_append, List.dropWhile_append_of_pos (ne_slash_of_mem_reverse h)]
  rcases hfront with hlast | rfl
  · rcases List.getLast?_eq_some_iff.1 hlast with ⟨before, rfl⟩
    simp
  · rfl

/-- A slash at the end of a path is not looked at. -/
theorem isRooted_append_slash {p : List Char} (h : p ≠ []) :
    isRooted (String.ofList (p ++ ['/'])) = isRooted (String.ofList p) := by
  rw [isRooted, isRooted, String.toList_ofList, String.toList_ofList,
    List.head?_append_of_ne_nil _ h]

theorem elements_append_slash {p : List Char} (h : p ≠ []) :
    elements (String.ofList (p ++ ['/'])) = elements (String.ofList p) := by
  rw [elements, elements, isRooted_append_slash h, String.toList_ofList, String.toList_ofList,
    splitOn_append_slash, List.foldl_append]
  rfl

/-- The directory of a cleaned path has all its elements but the last. -/
theorem IsClean.dir {p : String} (hclean : IsClean p) {es : List (List Char)} {e : List Char}
    (h : elements p = es ++ [e]) :
    isRooted (SlashPath.dir p) = isRooted p ∧ elements (SlashPath.dir p) = es := by
  have hmem : ∀ x ∈ es ++ [e], x ≠ [] ∧ x ≠ ['.'] ∧ '/' ∉ x := fun x hx => mem_elements (h ▸ hx)
  have hstacked : Stacked (isRooted p) es.reverse := by
    have hall := stacked_elements p
    rw [h, List.reverse_append, List.reverse_singleton, List.singleton_append] at hall
    exact hall.2.2
  have hslash : '/' ∉ e := (hmem e (by simp)).2.2
  have htext : p.toList = spell (isRooted p) (es ++ [e]) := by
    have hspell := clean_eq_spell p
    rw [hclean, h, if_neg (by simp)] at hspell
    exact (congrArg String.toList hspell).trans String.toList_ofList
  rw [SlashPath.dir, isRooted_clean, elements_clean, htext, spell_concat,
    beforeLast_append hslash (getLast?_front _ _), front]
  -- a single element stands behind the root or nothing, every other one behind a slash
  by_cases hes : es = []
  · rw [if_pos hes, hes]
    cases isRooted p <;> exact ⟨rfl, rfl⟩
  · have hmem' : ∀ x ∈ es, x ≠ [] ∧ x ≠ ['.'] ∧ '/' ∉ x :=
      fun x hx => hmem x (List.mem_append_left _ hx)
    have hne : spell (isRooted p) es ≠ [] := by
      rw [Ne, spell_eq_nil hmem']
      exact fun hnil => hes hnil.2
    rw [if_neg hes, isRooted_append_slash hne, elements_append_slash hne]
    exact ⟨isRooted_spell hmem', elements_spell hstacked⟩

/-! ## Joined names -/

/-- The characters of names joined by slashes. -/
theorem toList_joined (names : List String) :
    (Text.joined "/" names).toList = ['/'].intercalate (names.map String.toList) := by
  rw [Text.joined, String.toList_intercalate]
  rfl

theorem splitOn_intercalate_names (d : List Char) {names : List (List Char)}
    (h : ∀ n ∈ names, IsName n) :
    (['/'].intercalate (d :: names)).splitOn '/' = d.splitOn '/' ++ names := by
  induction names generalizing d with
  | nil =>
      simp
  | cons n rest ih =>
      have hn := splitOn_of_not_mem (h n (List.mem_cons_self ..)).2.2.2
      rw [List.intercalate_cons_cons, List.append_assoc, List.singleton_append,
        splitOn_append_slash, ih n fun m hm => h m (List.mem_cons_of_mem _ hm), hn,
        List.singleton_append]

theorem foldl_pushElement_names {rooted : Bool} {kept names : List (List Char)}
    (h : ∀ n ∈ names, IsName n) :
    names.foldl (pushElement rooted) kept = names.reverse ++ kept := by
  induction names generalizing kept with
  | nil =>
      rfl
  | cons n rest ih =>
      rw [List.foldl_cons, pushElement_name (h n (List.mem_cons_self ..)),
        ih fun m hm => h m (List.mem_cons_of_mem _ hm), List.reverse_cons, List.append_assoc]
      rfl

/-- Names joined to a path that has a text are its last elements. -/
theorem elements_joined {dir : String} (hdir : dir ≠ "") {names : List String}
    (h : ∀ n ∈ names, IsName n.toList) :
    isRooted (Text.joined "/" (dir :: names)) = isRooted dir ∧
      elements (Text.joined "/" (dir :: names)) = elements dir ++ names.map String.toList := by
  have hnames : ∀ n ∈ names.map String.toList, IsName n := by
    intro n hn
    rcases List.mem_map.1 hn with ⟨m, hm, rfl⟩
    exact h m hm
  have hrooted : isRooted (Text.joined "/" (dir :: names)) = isRooted dir := by
    have hne : dir.toList ≠ [] := by simpa using hdir
    rw [isRooted, isRooted, toList_joined, List.map_cons]
    cases names with
    | nil =>
        simp
    | cons n rest =>
        rw [List.map_cons, List.intercalate_cons_cons, List.append_assoc,
          List.head?_append_of_ne_nil _ hne]
  refine ⟨hrooted, ?_⟩
  rw [elements, elements, hrooted, toList_joined, List.map_cons, splitOn_intercalate_names _ hnames,
    List.foldl_append, foldl_pushElement_names hnames, List.reverse_append, List.reverse_reverse]

end SlashPath

/-! ## Places -/

namespace Place

open SlashPath

theorem ofList_injective : Function.Injective String.ofList := by
  intro a b h
  simpa using congrArg String.toList h

theorem ofPath_clean (p : String) : ofPath (clean p) = ofPath p := by
  rw [ofPath, ofPath, isRooted_clean, elements_clean]

/-- A cleaned path is determined by its place. -/
theorem eq_of_ofPath_eq {p q : String} (hp : IsClean p) (hq : IsClean q)
    (h : ofPath p = ofPath q) : p = q := by
  -- no element is a slash, so the place shows whether the path is rooted
  have hslash : ∀ r : String, ∀ e ∈ (elements r).map String.ofList, e ≠ "/" := by
    intro r e he heq
    rcases List.mem_map.1 he with ⟨cs, hcs, rfl⟩
    have hcs' : cs = ['/'] := by simpa using congrArg String.toList heq
    exact (mem_elements hcs).2.2 (hcs' ▸ List.mem_cons_self ..)
  have hboth : isRooted p = isRooted q ∧ elements p = elements q := by
    rw [ofPath, ofPath] at h
    cases hp : isRooted p <;> cases hq : isRooted q <;>
      simp only [hp, hq, Bool.false_eq_true, if_false, if_true, List.nil_append,
        List.singleton_append] at h
    · exact ⟨rfl, ofList_injective.list_map h⟩
    · exact absurd rfl (hslash p "/" (h ▸ List.mem_cons_self ..))
    · exact absurd rfl (hslash q "/" (h ▸ List.mem_cons_self ..))
    · exact ⟨rfl, ofList_injective.list_map (List.cons.inj h).2⟩
  calc
    p = clean p := hp.symm
    _ = clean q := by rw [clean, clean, hboth.1, hboth.2]
    _ = q := hq

/-- The directory of a cleaned path is one place up. -/
theorem ofPath_dir {p : String} (hclean : IsClean p) {above : Place} {name : String}
    (h : ofPath p = above ++ [name]) (hname : name ≠ "/") : ofPath (dir p) = above := by
  rcases List.eq_nil_or_concat' (elements p) with hes | ⟨es, e, hes⟩
  · -- a path without elements is at most the root, whose place is no name
    rw [ofPath, hes] at h
    cases hrooted : isRooted p <;> rw [hrooted] at h
    · simp at h
    · rcases List.append_eq_singleton_iff.1 h.symm with h | h <;> simp_all
  · have hdir := hclean.dir hes
    rw [ofPath, hdir.1, hdir.2]
    rw [ofPath, hes, List.map_append, List.map_singleton, ← List.append_assoc] at h
    exact (List.append_inj' h rfl).1

/-- Names joined to a path that has a text lie below its place. -/
theorem ofPath_joined {dir : String} (hdir : dir ≠ "") {names : List String}
    (h : ∀ n ∈ names, IsName n.toList) :
    ofPath (Text.joined "/" (dir :: names)) = ofPath dir ++ names := by
  rcases elements_joined hdir h with ⟨hrooted, helements⟩
  have hback : (names.map String.toList).map String.ofList = names := by
    rw [List.map_map]
    exact (List.map_congr_left fun n _ => String.ofList_toList).trans (List.map_id names)
  rw [ofPath, ofPath, hrooted, helements, List.map_append, hback, List.append_assoc]

theorem ofPath_name {name : String} (h : IsName name.toList) : ofPath name = [name] := by
  have hrooted : isRooted name = false := by
    rw [isRooted, beq_eq_false_iff_ne]
    exact fun hhead => h.2.2.2 (List.mem_of_mem_head? hhead)
  rw [ofPath, hrooted, elements, splitOn_of_not_mem h.2.2.2, List.foldl_cons, List.foldl_nil,
    pushElement_name h]
  simp

/-- Names joined to a directory lie below its place. -/
theorem ofPath_join (dir : String) {names : List String} (h : ∀ n ∈ names, IsName n.toList) :
    ofPath (join (dir :: names)) = ofPath dir ++ names := by
  have hkept : names.filter (fun n => !n.isEmpty) = names := by
    refine List.filter_eq_self.2 fun n hn => ?_
    have hne := (h n hn).1
    simpa using hne
  unfold join
  by_cases hdir : dir = ""
  · subst hdir
    rw [List.filter_cons_of_neg (by simp), hkept]
    -- the empty path has no place of its own, so the names make up the whole
    cases names with
    | nil =>
        rfl
    | cons n rest =>
        dsimp only
        have hn := h n (List.mem_cons_self ..)
        have hne : n ≠ "" := by
          intro heq
          exact hn.1 (by simp [heq])
        rw [ofPath_clean, ofPath_joined hne fun m hm => h m (List.mem_cons_of_mem _ hm),
          ofPath_name hn]
        rfl
  · rw [List.filter_cons_of_pos (by simpa using hdir), hkept]
    dsimp only
    rw [ofPath_clean, ofPath_joined hdir h]

end Place
end ApiPages

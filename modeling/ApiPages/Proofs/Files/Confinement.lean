import ApiPages.Proofs.Files.Frames
import Mathlib.Data.List.Induction

/-!
# Paths that stay below a directory

A path that is joined to a directory stays below it unless it begins with a step to the parent once
it is cleaned.  Whether it does is seen on the row of its elements: some step to the parent has no
name in front of it to give up.

* `SlashPath.LeadsOut` says that a path is rooted or begins with a step to the parent, and
  `SlashPath.leadsOut_join_iff` reads it off the parts that a path is joined from;
* `SlashPath.elements_join_join` says that parts may be joined in two steps;
* `Place.isBelow_join` says that a path that does not lead out stays below the directory that it is
  joined to;
* `FileTree.SameFileAt` relates trees with the same file at a place.
-/

namespace ApiPages

namespace SlashPath

variable {rooted : Bool} {kept es : List (List Char)} {e last : List Char}

/-! ## Kinds of elements -/

/-- An element that cleaning drops. -/
def IsDropped (e : List Char) : Prop :=
  e = [] ∨ e = ['.']

theorem dropped_or_parent_or_name (e : List Char) :
    IsDropped e ∨ e = ['.', '.'] ∨ ¬ IsDropped e ∧ e ≠ ['.', '.'] := by
  by_cases hdropped : IsDropped e
  · exact .inl hdropped
  · by_cases hup : e = ['.', '.']
    · exact .inr (.inl hup)
    · exact .inr (.inr ⟨hdropped, hup⟩)

theorem pushElement_dropped (h : IsDropped e) : pushElement rooted kept e = kept := by
  rcases h with rfl | rfl <;> rfl

theorem pushElement_kept (h : ¬ IsDropped e) (hup : e ≠ ['.', '.']) :
    pushElement rooted kept e = e :: kept := by
  rcases not_or.1 h with ⟨hempty, hdot⟩
  simp [pushElement, hempty, hdot, hup]

/-- A step to the parent gives up the name in front of it. -/
theorem pushElement_parent (h : last ≠ ['.', '.']) :
    pushElement rooted (last :: kept) ['.', '.'] = kept := by
  simp [pushElement, h]

theorem pushElement_parent_parent :
    pushElement rooted (['.', '.'] :: kept) ['.', '.'] = ['.', '.'] :: ['.', '.'] :: kept :=
  rfl

/-! ## Rows of elements -/

/-- Whether a row of elements takes a step to the parent where no name is left to give up; `depth`
counts those that are. -/
def climbs (depth : Nat) : List (List Char) → Bool
  | [] => false
  | e :: rest =>
      if e.isEmpty || e == ['.'] then climbs depth rest
      else if e == ['.', '.'] then depth == 0 || climbs (depth - 1) rest
      else climbs (depth + 1) rest

/-- The elements of parts in a row, also those that cleaning drops. -/
def pieces (parts : List String) : List (List Char) :=
  parts.flatMap fun part => part.toList.splitOn '/'

theorem pieces_cons (part : String) (rest : List String) :
    pieces (part :: rest) = part.toList.splitOn '/' ++ pieces rest :=
  List.flatMap_cons

theorem pieces_pair (first second : String) :
    pieces [first, second] = first.toList.splitOn '/' ++ second.toList.splitOn '/' := by
  simp [pieces]

theorem climbs_dropped (h : IsDropped e) (depth : Nat) (rest : List (List Char)) :
    climbs depth (e :: rest) = climbs depth rest := by
  rcases h with rfl | rfl <;> rfl

theorem climbs_kept (h : ¬ IsDropped e) (hup : e ≠ ['.', '.']) (depth : Nat)
    (rest : List (List Char)) : climbs depth (e :: rest) = climbs (depth + 1) rest := by
  rcases not_or.1 h with ⟨hempty, hdot⟩
  simp [climbs, hempty, hdot, hup]

/-- A step to the parent that was kept stays. -/
theorem parent_mem_foldl (h : ['.', '.'] ∈ kept) (es : List (List Char)) :
    ['.', '.'] ∈ es.foldl (pushElement rooted) kept := by
  induction es generalizing kept with
  | nil =>
      exact h
  | cons e es ih =>
      refine ih ?_
      rcases dropped_or_parent_or_name e with hdropped | rfl | ⟨hkept, hup⟩
      · rwa [pushElement_dropped hdropped]
      · cases kept with
        | nil =>
            cases h
        | cons last before =>
            by_cases hlast : last = ['.', '.']
            · rw [hlast, pushElement_parent_parent]
              exact List.mem_cons_self ..
            · rw [pushElement_parent hlast]
              exact (List.mem_cons.1 h).resolve_left (Ne.symm hlast)
      · rw [pushElement_kept hkept hup]
        exact List.mem_cons_of_mem _ h

/-- A row of elements leaves a step to the parent exactly if it climbs above the names that were
there. -/
theorem parent_mem_foldl_iff (h : ['.', '.'] ∉ kept) (es : List (List Char)) :
    ['.', '.'] ∈ es.foldl (pushElement false) kept ↔ climbs kept.length es = true := by
  induction es generalizing kept with
  | nil =>
      exact iff_of_false h Bool.false_ne_true
  | cons e es ih =>
      rw [List.foldl_cons]
      -- as long as no step to the parent is kept, the depth is the number of names that are
      rcases dropped_or_parent_or_name e with hdropped | rfl | ⟨hkept, hup⟩
      · rw [pushElement_dropped hdropped, climbs_dropped hdropped]
        exact ih h
      · cases kept with
        | nil =>
            exact iff_of_true (parent_mem_foldl (List.mem_singleton.2 rfl) es) rfl
        | cons last before =>
            have hlast : last ≠ ['.', '.'] := fun heq => h (heq ▸ List.mem_cons_self ..)
            rw [pushElement_parent hlast]
            exact ih fun hmem => h (List.mem_cons_of_mem _ hmem)
      · rw [pushElement_kept hkept hup, climbs_kept hkept hup]
        refine ih fun hmem => ?_
        rcases List.mem_cons.1 hmem with heq | hmem
        · exact hup heq.symm
        · exact h hmem

/-- What is kept of a row is names and steps to the parent. -/
theorem not_dropped_of_mem_foldl (h : ∀ x ∈ kept, ¬ IsDropped x) (es : List (List Char)) :
    ∀ x ∈ es.foldl (pushElement rooted) kept, ¬ IsDropped x := by
  induction es generalizing kept with
  | nil =>
      exact h
  | cons e es ih =>
      refine ih fun x hx => ?_
      rcases dropped_or_parent_or_name e with hdropped | rfl | ⟨hkept, hup⟩
      · rw [pushElement_dropped hdropped] at hx
        exact h x hx
      · have hself : ¬ IsDropped ['.', '.'] := by simp [IsDropped]
        cases kept with
        | nil =>
            cases rooted with
            | true =>
                cases hx
            | false =>
                exact List.mem_singleton.1 hx ▸ hself
        | cons last before =>
            by_cases hlast : last = ['.', '.']
            · subst hlast
              rcases List.mem_cons.1 hx with rfl | hx
              · exact hself
              · exact h x hx
            · rw [pushElement_parent hlast] at hx
              exact h x (List.mem_cons_of_mem _ hx)
      · rw [pushElement_kept hkept hup] at hx
        rcases List.mem_cons.1 hx with rfl | hx
        · exact hkept
        · exact h x hx

/-- Elements may be cleaned before they are pushed. -/
theorem foldl_pushElement_cleaned (kept es : List (List Char)) :
    (es.foldl (pushElement false) []).reverse.foldl (pushElement rooted) kept =
      es.foldl (pushElement rooted) kept := by
  induction es using List.reverseRecOn with
  | nil =>
      rfl
  | append_singleton es e ih =>
      rw [List.foldl_append, List.foldl_append, List.foldl_cons, List.foldl_cons, List.foldl_nil,
        List.foldl_nil, ← ih]
      have hnames : ∀ x ∈ es.foldl (pushElement false) [], ¬ IsDropped x :=
        not_dropped_of_mem_foldl (by simp) es
      generalize es.foldl (pushElement false) [] = cleaned at hnames
      have hlater : ∀ (x : List Char) before,
        (x :: before).reverse.foldl (pushElement rooted) kept =
          pushElement rooted (before.reverse.foldl (pushElement rooted) kept) x := by
        intro x before
        rw [List.reverse_cons, List.foldl_append, List.foldl_cons, List.foldl_nil]
      rcases dropped_or_parent_or_name e with hdropped | rfl | ⟨hkept, hup⟩
      · rw [pushElement_dropped hdropped, pushElement_dropped hdropped]
      · cases cleaned with
        | nil =>
            rfl
        | cons last before =>
            by_cases hlast : last = ['.', '.']
            · rw [hlast, pushElement_parent_parent, hlater]
            · -- the name that is given up was pushed right before
              have hlast' := hnames last (List.mem_cons_self ..)
              rw [pushElement_parent hlast, hlater, pushElement_kept hlast' hlast,
                pushElement_parent hlast]
      · rw [pushElement_kept hkept hup, hlater]

/-! ## Joined parts -/

theorem splitOn_intercalate_parts (part : List Char) (rest : List (List Char)) :
    (['/'].intercalate (part :: rest)).splitOn '/' =
      (part :: rest).flatMap fun part => part.splitOn '/' := by
  induction rest generalizing part with
  | nil =>
      simp
  | cons next rest ih =>
      rw [List.intercalate_cons_cons, List.append_assoc, List.singleton_append,
        splitOn_append_slash, ih, List.flatMap_cons, List.flatMap_cons, List.flatMap_cons]

/-- Empty parts have nothing to push. -/
theorem foldl_pieces_filter (parts : List String) (kept : List (List Char)) :
    (pieces (parts.filter fun p => !p.isEmpty)).foldl (pushElement rooted) kept =
      (pieces parts).foldl (pushElement rooted) kept := by
  -- an empty part has one element, the empty one, which is dropped
  induction parts generalizing kept with
  | nil =>
      rfl
  | cons part parts ih =>
      by_cases hpart : part = ""
      · subst hpart
        rw [List.filter_cons_of_neg (by decide)]
        exact ih kept
      · rw [List.filter_cons_of_pos (by simpa using hpart)]
        rw [pieces_cons, pieces_cons, List.foldl_append, List.foldl_append]
        exact ih _

theorem elements_join (parts : List String) : elements (join parts) =
    ((pieces parts).foldl (pushElement (isRooted (join parts))) []).reverse := by
  rw [← foldl_pieces_filter]
  unfold join
  generalize parts.filter (fun p => !p.isEmpty) = kept
  cases kept with
  | nil =>
      rfl
  | cons part rest =>
      dsimp only
      rw [isRooted_clean, elements_clean, elements, toList_joined, List.map_cons,
        splitOn_intercalate_parts, ← List.map_cons, List.flatMap_map]
      rfl

/-- The first part that is not empty decides whether a joined path is rooted. -/
theorem isRooted_join_cons (part : String) (rest : List String) :
    isRooted (join (part :: rest)) = if part = "" then isRooted (join rest) else isRooted part := by
  by_cases hpart : part = ""
  · rw [if_pos hpart, hpart]
    rfl
  · have hne : part.toList ≠ [] := by simpa using hpart
    rw [if_neg hpart, join, List.filter_cons_of_pos (by simpa using hpart)]
    dsimp only
    rw [isRooted_clean, isRooted, isRooted, toList_joined, List.map_cons]
    cases (rest.filter fun p => !p.isEmpty).map String.toList with
    | nil =>
        rw [List.intercalate_singleton]
    | cons next rest =>
        rw [List.intercalate_cons_cons, List.append_assoc, List.head?_append_of_ne_nil _ hne]

theorem isRooted_join_singleton (part : String) : isRooted (join [part]) = isRooted part := by
  rw [isRooted_join_cons]
  split
  · next hpart =>
      rw [hpart]
      rfl
  · rfl

/-- The elements of a path without a root may be pushed in its place. -/
theorem foldl_pushElement_splitOn {p : String} (h : isRooted p = false) (kept : List (List Char)) :
    (p.toList.splitOn '/').foldl (pushElement rooted) kept =
      (elements p).foldl (pushElement rooted) kept := by
  rw [elements, h, foldl_pushElement_cleaned]

/-- Parts may be joined in two steps. -/
theorem elements_join_join {rest : List String} (h : isRooted (join rest) = false) (part : String) :
    isRooted (join [part, join rest]) = isRooted (join (part :: rest)) ∧
      elements (join [part, join rest]) = elements (join (part :: rest)) := by
  have hrooted : isRooted (join [part, join rest]) = isRooted (join (part :: rest)) := by
    rw [isRooted_join_cons part, isRooted_join_cons part, isRooted_join_singleton]
  refine ⟨hrooted, ?_⟩
  have hback : (pieces rest).foldl (pushElement false) [] = (elements (join rest)).reverse := by
    rw [elements_join, h, List.reverse_reverse]
  rw [elements_join, elements_join (part :: rest), hrooted, pieces_pair, pieces_cons,
    List.foldl_append, List.foldl_append, foldl_pushElement_splitOn h,
    ← List.reverse_reverse (elements (join rest)), ← hback, foldl_pushElement_cleaned]

/-! ## Leading out -/

/-- A path that is rooted or, once it is cleaned, begins with a step to the parent. -/
def LeadsOut (p : String) : Prop :=
  isRooted p = true ∨ (elements p).head? = some ['.', '.']

instance (p : String) : Decidable (LeadsOut p) :=
  inferInstanceAs (Decidable (_ ∨ _))

/-- Steps to the parent stand in front. -/
theorem leadsOut_iff (p : String) : LeadsOut p ↔ isRooted p = true ∨ ['.', '.'] ∈ elements p := by
  refine or_congr_right ⟨List.mem_of_mem_head?, fun hmem => ?_⟩
  rcases List.append_of_mem hmem with ⟨before, after, hsplit⟩
  have hall := (elements_parent hsplit).2
  rw [hsplit]
  cases before with
  | nil =>
      rfl
  | cons first before =>
      rw [List.cons_append, List.head?_cons, hall first (List.mem_cons_self ..)]

theorem leadsOut_congr {p q : String} (hrooted : isRooted p = isRooted q)
    (helements : elements p = elements q) : LeadsOut p ↔ LeadsOut q := by
  rw [LeadsOut, LeadsOut, hrooted, helements]

/-- What is joined leads out if it is rooted or if the row of its elements climbs. -/
theorem leadsOut_join_iff (parts : List String) :
    LeadsOut (join parts) ↔ isRooted (join parts) = true ∨ climbs 0 (pieces parts) = true := by
  rw [leadsOut_iff, elements_join, List.mem_reverse]
  cases hrooted : isRooted (join parts) with
  | true =>
      exact iff_of_true (.inl rfl) (.inl rfl)
  | false =>
      exact or_congr_right (parent_mem_foldl_iff (by simp) _)

/-- The elements of a path that does not lead out are names. -/
theorem isName_of_mem_elements {p : String} (h : ¬ LeadsOut p) : ∀ e ∈ elements p, IsName e := by
  intro e he
  rcases mem_elements he with ⟨hempty, hdot, hslash⟩
  refine ⟨hempty, hdot, ?_, hslash⟩
  rintro rfl
  exact h ((leadsOut_iff p).2 (.inr he))

/-- The elements of a path that does not lead out follow those of the directory that it is joined
to. -/
theorem elements_join_pair {p : String} (h : ¬ LeadsOut p) (dir : String) :
    isRooted (join [dir, p]) = isRooted dir ∧
      elements (join [dir, p]) = elements dir ++ elements p := by
  have hp : isRooted p = false := Bool.eq_false_iff.2 fun hrooted => h (.inl hrooted)
  have hrooted : isRooted (join [dir, p]) = isRooted dir := by
    rw [isRooted_join_cons, isRooted_join_singleton]
    split
    · next hdir =>
        rw [hdir, hp]
        rfl
    · rfl
  refine ⟨hrooted, ?_⟩
  have hdir : (dir.toList.splitOn '/').foldl (pushElement (isRooted dir)) [] =
      (elements dir).reverse := by
    rw [elements, List.reverse_reverse]
  rw [elements_join, hrooted, pieces_pair, List.foldl_append, hdir,
    foldl_pushElement_splitOn hp, foldl_pushElement_names (isName_of_mem_elements h),
    List.reverse_append, List.reverse_reverse, List.reverse_reverse]

/-- A rooted path loses its root where it is joined to a directory, and climbs no more. -/
theorem leadsOut_join_rooted {p dir : String} (hclean : IsClean p) (hp : isRooted p = true)
    (hdir : dir ≠ "") : LeadsOut (join [dir, p]) ↔ LeadsOut dir := by
  have hnames : ∀ e ∈ elements p, IsName e := by
    intro e he
    rcases mem_elements he with ⟨hempty, hdot, hslash⟩
    refine ⟨hempty, hdot, ?_, hslash⟩
    rintro rfl
    rcases List.append_of_mem he with ⟨before, after, hsplit⟩
    exact absurd (elements_parent hsplit).1 (by simp [hp])
  have hspell : p.toList = '/' :: ['/'].intercalate (elements p) := by
    have hclean' : p = clean p := hclean.symm
    rw [clean_eq_spell, hp, if_neg (by simp)] at hclean'
    conv_lhs => rw [hclean']
    rw [String.toList_ofList, spell, if_pos rfl]
  -- what stands before the first slash is empty, and all that follows it are names
  have hpush : ∀ rooted kept, (p.toList.splitOn '/').foldl (pushElement rooted) kept =
      (elements p).reverse ++ kept := by
    intro rooted kept
    rw [hspell, ← List.nil_append ('/' :: _), splitOn_append_slash, List.foldl_append,
      foldl_splitOn_intercalate fun e he => (hnames e he).2.2.2, foldl_pushElement_names hnames]
    rfl
  have hrooted : isRooted (join [dir, p]) = isRooted dir := by
    rw [isRooted_join_cons, if_neg hdir]
  have helements : elements (join [dir, p]) = elements dir ++ elements p := by
    rw [elements_join, hrooted, pieces_pair, List.foldl_append, hpush, List.reverse_append,
      List.reverse_reverse]
    rfl
  have hup : ['.', '.'] ∉ elements p := fun hmem => (hnames _ hmem).2.2.1 rfl
  rw [leadsOut_iff, leadsOut_iff, hrooted, helements, List.mem_append]
  exact or_congr_right (or_iff_left hup)

end SlashPath

/-! ## Places below a place -/

namespace Place

open SlashPath

/-- A place that is reached from another one by names only. -/
def IsBelow (p dir : Place) : Prop :=
  ∃ names : List String, (∀ n ∈ names, IsName n.toList) ∧ p = dir ++ names

/-- A path that does not lead out stays below the directory that it is joined to. -/
theorem isBelow_join {p : String} (h : ¬ LeadsOut p) (dir : String) :
    IsBelow (ofPath (join [dir, p])) (ofPath dir) := by
  rcases elements_join_pair h dir with ⟨hrooted, helements⟩
  refine ⟨(elements p).map String.ofList, ?_, ?_⟩
  · intro n hn
    rcases List.mem_map.1 hn with ⟨e, he, rfl⟩
    rw [String.toList_ofList]
    exact isName_of_mem_elements h e he
  · rw [ofPath, ofPath, hrooted, helements, List.map_append, List.append_assoc]

end Place

namespace FileTree

open SlashPath

variable {t t' t'' : FileTree} {q : Place}

/-- Trees that have the same file at a place, if one of them has one. -/
def SameFileAt (q : Place) (t t' : FileTree) : Prop :=
  ∀ b, t'.node? q = some (.file b) ↔ t.node? q = some (.file b)

theorem SameFileAt.refl (q : Place) (t : FileTree) : SameFileAt q t t :=
  fun _ => Iff.rfl

theorem SameFileAt.trans (h : SameFileAt q t t') (h' : SameFileAt q t' t'') : SameFileAt q t t'' :=
  fun b => (h' b).trans (h b)

/-- A file that is saved leaves the files at other places. -/
theorem sameFileAt_save {path : String} {b : Bytes} (hclean : IsClean path)
    (h : t.save path b = .ok t') (hne : Place.ofPath path ≠ q) : SameFileAt q t t' := by
  intro b'
  rw [node?_save_file hclean h, if_neg (Ne.symm hne)]

end FileTree
end ApiPages

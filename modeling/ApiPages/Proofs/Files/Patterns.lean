import ApiPages.Files.Glob
import ApiPages.Proofs.Files.Confinement
import ApiPages.Proofs.Files.Listing
import ApiPages.Proofs.Text.Endings

/-!
# Which paths fit a pattern

A pattern that is joined to a directory without special characters finds the entries of that
directory whose names fit.

* `Glob.hasMeta_clean` says that cleaning a path brings in no special characters;
* `Glob.fits_run_iff` says which names fit a pattern that ends in a fixed text;
* `Glob.paths?_join` gives the paths that are found in a directory.
-/

namespace ApiPages

open SlashPath

namespace SlashPath

/-! ## Characters of cleaned paths -/

theorem mem_intercalate_iff {es : List (List Char)} {c : Char} (hc : c ≠ '/') :
    c ∈ ['/'].intercalate es ↔ ∃ e ∈ es, c ∈ e := by
  induction es with
  | nil =>
      simp
  | cons e rest ih =>
      cases rest with
      | nil =>
          simp
      | cons e' rest =>
          rw [List.intercalate_cons_cons, List.mem_append, List.mem_append, ih]
          simp [hc]

/-- Cleaning a path keeps or drops its elements, and makes no new ones. -/
theorem mem_foldl_pushElement {rooted : Bool} {kept es : List (List Char)} {e : List Char}
    (h : e ∈ es.foldl (pushElement rooted) kept) : e ∈ kept ∨ e ∈ es := by
  induction es generalizing kept with
  | nil =>
      exact Or.inl h
  | cons first rest ih =>
      have hpush : ∀ x ∈ pushElement rooted kept first, x ∈ kept ∨ x = first := by
        intro x hx
        rcases dropped_or_parent_or_name first with hdropped | rfl | ⟨hkept, hup⟩
        · rw [pushElement_dropped hdropped] at hx
          exact Or.inl hx
        · cases kept with
          | nil =>
              cases rooted with
              | true =>
                  cases hx
              | false =>
                  exact Or.inr (List.mem_singleton.1 hx)
          | cons last before =>
              by_cases hlast : last = ['.', '.']
              · rw [hlast, pushElement_parent_parent] at hx
                rcases List.mem_cons.1 hx with rfl | hx
                · exact Or.inr rfl
                · exact Or.inl (hlast ▸ hx)
              · rw [pushElement_parent hlast] at hx
                exact Or.inl (List.mem_cons_of_mem _ hx)
        · rw [pushElement_kept hkept hup] at hx
          exact (List.mem_cons.1 hx).symm
      rcases ih h with hx | hx
      · rcases hpush e hx with hold | rfl
        · exact Or.inl hold
        · exact Or.inr (List.mem_cons_self ..)
      · exact Or.inr (List.mem_cons_of_mem _ hx)

/-- A cleaned path has no characters that the path has not, but slashes and the point of the empty
one. -/
theorem mem_clean {p : String} {c : Char} (h : c ∈ (clean p).toList) :
    c ∈ p.toList ∨ c = '/' ∨ c = '.' := by
  by_cases hslash : c = '/'
  · exact Or.inr (Or.inl hslash)
  · rw [clean_eq_spell] at h
    split at h
    · exact Or.inr (Or.inr (List.mem_singleton.1 h))
    · have hbody : c ∈ ['/'].intercalate (elements p) := by
        rw [String.toList_ofList, spell] at h
        split at h
        · exact (List.mem_cons.1 h).resolve_left hslash
        · exact h
      rcases (mem_intercalate_iff hslash).1 hbody with ⟨e, he, hc⟩
      rw [elements, List.mem_reverse] at he
      have hpiece := (mem_foldl_pushElement he).resolve_left List.not_mem_nil
      have hpieces := (mem_intercalate_iff hslash).2 ⟨e, hpiece, hc⟩
      rw [List.intercalate_splitOn] at hpieces
      exact Or.inl hpieces

end SlashPath

namespace Glob

/-! ## Reading patterns -/

/-- A character with a meaning of its own in patterns. -/
def isSpecial (c : Char) : Bool :=
  c == '*' || c == '?' || c == '[' || c == '\\'

theorem hasMeta_eq_false_iff {s : String} :
    hasMeta s = false ↔ ∀ c ∈ s.toList, isSpecial c = false := by
  rw [hasMeta, List.any_eq_false]
  exact forall₂_congr fun c _ => Bool.not_eq_true _ ▸ Iff.rfl

/-- Characters without a meaning of their own stand for themselves. -/
theorem pieces?_append {cs : List Char} (h : ∀ c ∈ cs, isSpecial c = false) (fuel : Nat)
    (rest : List Char) :
    pieces? (cs.length + fuel) (cs ++ rest) = (pieces? fuel rest).map (cs.map .char ++ ·) := by
  induction cs with
  | nil =>
      simp
  | cons c cs ih =>
      have hc := h c (List.mem_cons_self ..)
      simp only [isSpecial, Bool.or_eq_false_iff, beq_eq_false_iff_ne] at hc
      rcases hc with ⟨⟨⟨hrun, hone⟩, hclass⟩, hescape⟩
      have hlength : (c :: cs).length + fuel = cs.length + fuel + 1 := by
        rw [List.length_cons]
        omega
      rw [hlength, List.cons_append, pieces?]
      · rw [ih fun c' hc' => h c' (List.mem_cons_of_mem _ hc'), Option.map_map]
        rfl
      · exact hrun
      · exact hone
      · exact hclass
      · exact fun _ _ heq _ => hescape heq
      · exact fun heq _ => hescape heq

/-! ## Fitting names -/

theorem fits_chars_iff {word cs : List Char} : fits (word.map .char) cs = true ↔ cs = word := by
  induction word generalizing cs with
  | nil =>
      rw [List.map_nil, fits, List.isEmpty_iff]
  | cons c word ih =>
      cases cs with
      | nil =>
          simp [fits]
      | cons d cs =>
          rw [List.map_cons, fits, Bool.and_eq_true, ih, Piece.fitsChar, beq_iff_eq,
            List.cons.injEq]
          exact Piece.noConfusion

theorem mem_afterRun_iff {cs rest : List Char} (h : '/' ∉ cs) :
    rest ∈ afterRun cs ↔ rest <:+ cs := by
  induction cs with
  | nil =>
      simp [afterRun]
  | cons c cs ih =>
      have hc : (c == '/') = false := by
        rw [beq_eq_false_iff_ne]
        rintro rfl
        exact h (List.mem_cons_self ..)
      rw [afterRun, hc, if_neg Bool.false_ne_true, List.mem_cons,
        ih fun hmem => h (List.mem_cons_of_mem _ hmem), List.suffix_cons_iff]

/-- A name fits a run and a fixed text if it ends in that text. -/
theorem fits_run_iff {word cs : List Char} (h : '/' ∉ cs) :
    fits (.run :: word.map .char) cs = true ↔ word <:+ cs := by
  rw [fits, List.any_eq_true]
  constructor
  · rintro ⟨rest, hrest, hfits⟩
    rw [fits_chars_iff.1 hfits] at hrest
    exact (mem_afterRun_iff h).1 hrest
  · intro hsuffix
    exact ⟨word, (mem_afterRun_iff h).2 hsuffix, fits_chars_iff.2 rfl⟩

/-! ## Patterns in a directory -/

theorem lastElement_append {front e : List Char} (h : '/' ∉ e)
    (hfront : front.getLast? = some '/' ∨ front = []) : lastElement (front ++ e) = e := by
  rw [lastElement, List.reverse_append, List.takeWhile_append_of_pos (ne_slash_of_mem_reverse h)]
  rcases hfront with hlast | rfl
  · rcases List.getLast?_eq_some_iff.1 hlast with ⟨before, rfl⟩
    simp
  · simp

/-- A name joined to a directory is the last element of the path. -/
theorem toList_join {dir name : String} (hdir : dir ≠ "") (hname : IsName name.toList) :
    (join [dir, name]).toList = front (isRooted dir) (elements dir) ++ name.toList := by
  have hne : name ≠ "" := by
    rintro rfl
    exact hname.1 rfl
  have hnames : ∀ n ∈ [name], IsName n.toList := by simpa using hname
  rcases elements_joined hdir hnames with ⟨hrooted, helements⟩
  unfold join
  rw [List.filter_cons_of_pos (by simpa using hdir), List.filter_cons_of_pos (by simpa using hne),
    List.filter_nil]
  dsimp only
  rw [clean_eq_spell, hrooted, helements, List.map_singleton,
    if_neg (by simp), String.toList_ofList, spell_concat]

theorem mem_front {dir : String} {c : Char} (h : c ∈ front (isRooted dir) (elements dir)) :
    c ∈ (clean dir).toList ∨ c = '/' := by
  unfold front at h
  split at h
  · split at h
    · exact .inr (List.mem_singleton.1 h)
    · cases h
  · next hes =>
      rw [clean_eq_spell, if_neg fun hnone => hes hnone.2, String.toList_ofList]
      exact (List.mem_append.1 h).imp_right List.mem_singleton.1

/-- A path without special characters has none once it is cleaned. -/
theorem hasMeta_clean {dir : String} (h : hasMeta dir = false) : hasMeta (clean dir) = false := by
  rw [hasMeta_eq_false_iff] at h ⊢
  intro c hc
  rcases SlashPath.mem_clean hc with hc | rfl | rfl
  · exact h c hc
  · rfl
  · rfl

/-- The directory part of a pattern for names is the directory they are joined to. -/
theorem dirPart_join {dir name : String} (hdir : dir ≠ "") (hname : IsName name.toList) :
    dirPart (join [dir, name]) = clean dir := by
  rw [dirPart, toList_join hdir hname, beforeLast_append hname.2.2.2 (getLast?_front _ _), front,
    clean_eq_spell]
  by_cases hes : elements dir = []
  · -- the root is its own text, and the working directory is a point
    rw [if_pos hes, hes]
    cases isRooted dir <;> simp [spell]
  · have hspell : spell (isRooted dir) (elements dir) ≠ [] := by
      rw [Ne, spell_eq_nil fun e he => mem_elements he]
      exact fun hnil => hes hnil.2
    have hslash : String.ofList (spell (isRooted dir) (elements dir) ++ ['/']) =
        String.ofList (spell (isRooted dir) (elements dir)) ++ "/" := by
      rw [String.ofList_append]
    have hroot : (String.ofList (spell (isRooted dir) (elements dir) ++ ['/']) == "/") = false := by
      rw [beq_eq_false_iff_ne]
      intro heq
      have hchars := congrArg String.toList heq
      rw [String.toList_ofList] at hchars
      rcases List.append_eq_singleton_iff.1 hchars with ⟨hnil, -⟩ | ⟨-, hnil⟩
      · exact hspell hnil
      · cases hnil
    rw [if_neg hes, if_neg (by simp), hroot, if_neg Bool.false_ne_true, hslash,
      Text.cutSuffix_append, if_neg fun hnone => hes hnone.2]

/-- The name that a path ends in is its base. -/
theorem base_eq {path name : String} {before : List Char} (h : path.toList = before ++ name.toList)
    (hbefore : before.getLast? = some '/' ∨ before = []) (hne : name ≠ "")
    (hslash : '/' ∉ name.toList) :
    base path = name := by
  have hname : name.toList ≠ [] := by simpa using hne
  have hfull : (before ++ name.toList).isEmpty = false := by simp [hne]
  have hpath : path.isEmpty = false := by
    rw [Bool.eq_false_iff, Ne, String.isEmpty_iff, ← String.toList_eq_nil_iff, h]
    exact List.append_ne_nil_of_right_ne_nil _ hname
  -- a name ends without a slash, so nothing is cut off the path
  have hend : ((before ++ name.toList).reverse.dropWhile (· == '/')).reverse =
      before ++ name.toList := by
    rw [List.reverse_append]
    cases hrev : name.toList.reverse with
    | nil =>
        exact absurd (List.reverse_eq_nil_iff.1 hrev) hname
    | cons c rest =>
        have hc : (c == '/') = false := by
          rw [beq_eq_false_iff_ne]
          rintro rfl
          exact hslash (List.mem_reverse.1 (hrev ▸ List.mem_cons_self ..))
        rw [List.cons_append, List.dropWhile_cons_of_neg (by rw [hc]; exact Bool.false_ne_true),
          ← List.cons_append, ← hrev, List.reverse_append, List.reverse_reverse,
          List.reverse_reverse]
  unfold base
  rw [hpath, h, hend]
  dsimp only
  rw [hfull, lastElement_append hslash hbefore, String.ofList_toList]
  rfl

/-- A name joined to a directory is the base of the path. -/
theorem base_join {dir name : String} (hdir : dir ≠ "") (hname : IsName name.toList) :
    base (join [dir, name]) = name := by
  have hne : name ≠ "" := by simpa using hname.1
  exact base_eq (toList_join hdir hname) (getLast?_front _ _) hne hname.2.2.2

/-- A pattern with special characters is looked for in the directories that its beginning finds. -/
theorem pathsWithin_succ {t : FileTree} {pattern : String} {ps : List Piece} (fuel : Nat)
    (hread : (pattern? pattern).isSome = true) (hmeta : hasMeta pattern = true)
    (hlast : pattern? (String.ofList (lastElement pattern.toList)) = some ps) :
    pathsWithin t (fuel + 1) pattern =
      (if hasMeta (dirPart pattern) then pathsWithin t fuel (dirPart pattern)
        else some [dirPart pattern]).map fun dirs => dirs.flatMap (inDir t ps) := by
  rcases Option.isSome_iff_exists.1 hread with ⟨whole, hwhole⟩
  rw [pathsWithin, hwhole, hlast, hmeta]
  simp only [Option.bind_eq_bind, Option.bind_some, Option.pure_def, if_true]
  split
  · rw [Option.map_eq_bind]
    rfl
  · rfl

/-- A pattern for the names in a directory finds the entries whose names fit. -/
theorem paths?_join {t : FileTree} {dir name : String} {ps : List Piece} (hdir : dir ≠ "")
    (hplain : hasMeta (clean dir) = false) (hname : IsName name.toList)
    (hmeta : hasMeta name = true) (hpattern : pattern? name = some ps) :
    paths? t (join [dir, name]) = some (inDir t ps (clean dir)) := by
  have htext := toList_join hdir hname
  -- the directory stands for itself, so only the name is looked for
  have hfront : ∀ c ∈ front (isRooted dir) (elements dir), isSpecial c = false := by
    intro c hc
    rcases mem_front hc with hc | rfl
    · exact hasMeta_eq_false_iff.1 hplain c hc
    · rfl
  have hread : (pattern? (join [dir, name])).isSome = true := by
    have hlength : (join [dir, name]).length =
        (front (isRooted dir) (elements dir)).length + name.length := by
      rw [← String.length_toList, htext, List.length_append, String.length_toList]
    rw [pattern?, htext, hlength, pieces?_append hfront, ← pattern?, hpattern]
    rfl
  have hspecial : hasMeta (join [dir, name]) = true := by
    rw [hasMeta, htext, List.any_append, Bool.or_eq_true]
    exact .inr hmeta
  have hlast : pattern? (String.ofList (lastElement (join [dir, name]).toList)) = some ps := by
    rw [htext, lastElement_append hname.2.2.2 (getLast?_front _ _), String.ofList_toList, hpattern]
  rw [paths?, pathsWithin_succ _ hread hspecial hlast, dirPart_join hdir hname, hplain,
    if_neg Bool.false_ne_true, Option.map_some, List.flatMap_singleton]

/-- A path that is found for a pattern with special characters is an entry of a directory. -/
theorem exists_list?_of_mem_paths? {t : FileTree} {pattern path : String} {found : List String}
    (hmeta : hasMeta pattern = true) (h : paths? t pattern = some found) (hmem : path ∈ found) :
    ∃ dir entries name n, t.list? dir = some entries ∧ (name, n) ∈ entries ∧
      path = join [dir, name] := by
  rw [paths?, pathsWithin, if_pos hmeta] at h
  simp only [Option.bind_eq_bind, Option.bind_eq_some_iff, Option.pure_def] at h
  rcases h with ⟨-, -, ps, -, hfound⟩
  have hdirs : ∃ dirs : List String, dirs.flatMap (inDir t ps) = found := by
    split at hfound
    · rcases Option.bind_eq_some_iff.1 hfound with ⟨dirs, -, hdirs⟩
      exact ⟨dirs, Option.some.inj hdirs⟩
    · exact ⟨_, Option.some.inj hfound⟩
  rcases hdirs with ⟨dirs, hdirs⟩
  rw [← hdirs] at hmem
  rcases List.mem_flatMap.1 hmem with ⟨dir, -, hfound⟩
  rcases List.mem_filterMap.1 hfound with ⟨⟨name, n⟩, hentry, hpath⟩
  cases hlist : t.list? dir with
  | none =>
      rw [hlist] at hentry
      cases hentry
  | some entries =>
      rw [hlist] at hentry
      split at hpath
      · exact ⟨dir, entries, name, n, hlist, hentry, (Option.some.inj hpath).symm⟩
      · cases hpath

end Glob
end ApiPages

import ApiPages.Markdown.Inline
import ApiPages.Markdown.Links
import ApiPages.Proofs.Text.Blank
import ApiPages.Proofs.Text.Runs
import ApiPages.Proofs.Text.Substitution
import Mathlib.Data.List.Forall2
import Mathlib.Data.List.Induction

/-!
# Redirected links

The links of a document are redirected one destination after the other, and a definition by the
first entry that fits.  If neither destinations nor what they stand for hold brackets, and nothing
is redirected twice, then nothing depends on the order: `IsRedirected` says what happens at once.

* `Substituted` rules for inline links (`inlineRule`) and `IsRedefined` for the lines of
  definitions;
* `isRedirected_iff` says that every order gives the one redirected text;
* `resolveLinks_simultaneous` says so of documents.
-/

namespace ApiPages
namespace Markdown

open Text

variable {table rs : LinkTable} {redirects : String → String → Prop} {src line : List Char}
  {definitions : Nat → LinkTable} {d n : String}

/-! ## The entries that a document uses -/

/-- A destination of a document, and what the table says it stands for. -/
def Redirects (survey : Surveyor) (table : LinkTable) (src : String) (d n : String) : Prop :=
  d ∈ (survey src).destinations ∧ table.lookup d = some n

theorem mem_foldl_seen (destinations seen : List String) :
    d ∈ destinations.foldl (fun seen d => if seen.contains d then seen else seen ++ [d]) seen ↔
      d ∈ seen ∨ d ∈ destinations := by
  induction destinations generalizing seen with
  | nil =>
      simp
  | cons first rest ih =>
      rw [List.foldl_cons, ih, List.mem_cons]
      split
      · next hseen =>
          have hfirst : first ∈ seen := List.contains_iff_mem.1 hseen
          constructor
          · rintro (h | h)
            · exact .inl h
            · exact .inr (.inr h)
          · rintro (h | rfl | h)
            · exact .inl h
            · exact .inl hfirst
            · exact .inr h
      · rw [List.mem_append, List.mem_singleton, or_assoc]

theorem mem_replacements (destinations : List String) :
    (d, n) ∈ replacements table destinations ↔ d ∈ destinations ∧ table.lookup d = some n := by
  rw [replacements, List.mem_filterMap]
  constructor
  · rintro ⟨d', hd', hfound⟩
    rcases Option.map_eq_some_iff.1 hfound with ⟨n', hlookup, heq⟩
    cases heq
    exact ⟨((mem_foldl_seen destinations []).1 hd').resolve_left (List.not_mem_nil), hlookup⟩
  · rintro ⟨hd, hlookup⟩
    exact ⟨d, (mem_foldl_seen destinations []).2 (.inr hd), by rw [hlookup]; rfl⟩

/-! ## Entries that do not meet -/

/-- A text without the brackets that end the text and the destination of a link. -/
def IsUnmarked (s : String) : Prop :=
  ']' ∉ s.toList ∧ ')' ∉ s.toList

instance : DecidablePred IsUnmarked := fun s =>
  inferInstanceAs (Decidable (']' ∉ s.toList ∧ ')' ∉ s.toList))

/-- Entries whose texts hold no brackets and of which none leads to another. -/
structure IsSimultaneous (redirects : String → String → Prop) : Prop where
  destination : ∀ {d n}, redirects d n → IsUnmarked d
  target : ∀ {d n}, redirects d n → IsUnmarked n
  fresh : ∀ {d n n'}, redirects d n → ¬ redirects n n'
  unique : ∀ {d n n'}, redirects d n → redirects d n' → n = n'

/-! ## Inline links -/

/-- Inline links with a destination that is redirected. -/
def inlineRule (redirects : String → String → Prop) (needle new : List Char) : Prop :=
  ∃ d n, redirects d n ∧ needle = ("](" ++ d ++ ")").toList ∧ new = ("](" ++ n ++ ")").toList

theorem toList_inline (d : String) :
    ("](" ++ d ++ ")").toList = ']' :: '(' :: (d.toList ++ [')']) := by
  simp [String.toList_append]

/-- The text before a closing bracket is fixed by where it begins. -/
theorem eq_of_closed {mark : Char} {front front' cs : List Char} (h : front ++ [mark] <+: cs)
    (h' : front' ++ [mark] <+: cs) (hfront : mark ∉ front) (hfront' : mark ∉ front') :
    front = front' := by
  have hcut : ∀ {front : List Char}, front ++ [mark] <+: cs → mark ∉ front →
      cs.takeWhile (· != mark) = front := by
    rintro front ⟨rest, rfl⟩ hfront
    rw [List.append_assoc]
    refine takeWhile_run (fun c hc => bne_iff_ne.2 fun heq => hfront (heq ▸ hc)) fun c hc => ?_
    cases hc
    exact bne_self_eq_false mark
  rw [← hcut h hfront, hcut h' hfront']

theorem destination_eq {d d' : String} {cs : List Char} (h : ("](" ++ d ++ ")").toList <+: cs)
    (h' : ("](" ++ d' ++ ")").toList <+: cs) (hd : IsUnmarked d) (hd' : IsUnmarked d') :
    d = d' := by
  rw [toList_inline] at h h'
  rcases h with ⟨rest, rfl⟩
  have hclosed : d'.toList ++ [')'] <+: d.toList ++ [')'] ++ rest := by
    simpa [List.cons_prefix_cons] using h'
  exact String.toList_injective (eq_of_closed ⟨rest, rfl⟩ hclosed hd.2 hd'.2)

theorem IsSimultaneous.isMarked (h : IsSimultaneous redirects) :
    Substituted.IsMarked ']' (inlineRule redirects) := by
  have hinline : ∀ {s : String}, IsUnmarked s →
      ∃ tail, ("](" ++ s ++ ")").toList = ']' :: tail ∧ ']' ∉ tail := by
    intro s hs
    exact ⟨'(' :: (s.toList ++ [')']), toList_inline s, by simp [hs.1]⟩
  constructor
  · rintro _ _ ⟨d, n, hr, rfl, rfl⟩
    exact hinline (h.destination hr)
  · rintro _ _ ⟨d, n, hr, rfl, rfl⟩
    exact hinline (h.target hr)

/-- The rules for inline links leave no choice. -/
theorem IsSimultaneous.substituted_unique (h : IsSimultaneous redirects) {cs out other : List Char}
    (hout : Substituted (inlineRule redirects) cs out)
    (hother : Substituted (inlineRule redirects) cs other) :
    out = other := by
  refine Substituted.unique ?_ ?_ hout hother
  · rintro _ _ ⟨d, n, -, rfl, -⟩
    rw [toList_inline]
    simp
  · rintro _ _ _ _ cs ⟨d, n, hr, rfl, rfl⟩ ⟨d', n', hr', rfl, rfl⟩ hcs hcs'
    cases destination_eq hcs hcs' (h.destination hr) (h.destination hr')
    exact ⟨rfl, by rw [h.unique hr hr']⟩

theorem IsSimultaneous.mono {fewer : String → String → Prop} (h : IsSimultaneous redirects)
    (hfewer : ∀ {d n}, fewer d n → redirects d n) : IsSimultaneous fewer where
  destination hr := h.destination (hfewer hr)
  target hr := h.target (hfewer hr)
  fresh hr hr' := h.fresh (hfewer hr) (hfewer hr')
  unique hr hr' := h.unique (hfewer hr) (hfewer hr')

/-- Redirecting one destination after the other redirects all of them at once. -/
theorem substituted_foldl (rs : LinkTable) (h : IsSimultaneous fun d n => (d, n) ∈ rs)
    (src : List Char) :
    Substituted (inlineRule fun d n => (d, n) ∈ rs) src (rs.foldl replaceInline src) := by
  -- from the right: the scan for the last destination goes over what the others have left
  induction rs using List.reverseRecOn with
  | nil =>
      refine Substituted.refl ?_ src
      rintro _ _ ⟨d, n, hr, -⟩
      exact List.not_mem_nil hr
  | append_singleton rs r ih =>
      have hmem : ∀ {d n}, (d, n) ∈ rs → (d, n) ∈ rs ++ [r] := fun hr => List.mem_append_left [r] hr
      have hlast : (r.1, r.2) ∈ rs ++ [r] := List.mem_append_right rs (List.mem_singleton.2 rfl)
      rw [List.foldl_append, List.foldl_cons, List.foldl_nil]
      refine Substituted.scan h.isMarked ⟨r.1, r.2, hlast, rfl, rfl⟩ ?_ ?_ (ih (h.mono hmem))
      · intro needle new
        constructor
        · rintro ⟨d, n, hr, hneedle, hnew⟩
          rcases List.mem_append.1 hr with hr | hr
          · exact .inl ⟨d, n, hr, hneedle, hnew⟩
          · cases List.mem_singleton.1 hr
            exact .inr ⟨hneedle, hnew⟩
        · rintro (⟨d, n, hr, hneedle, hnew⟩ | ⟨hneedle, hnew⟩)
          · exact ⟨d, n, hmem hr, hneedle, hnew⟩
          · exact ⟨r.1, r.2, hlast, hneedle, hnew⟩
      · -- what the other destinations stand for is not the one that is redirected now
        rintro _ _ ⟨d, n, hr, rfl, rfl⟩ rest hstarts
        cases destination_eq hstarts ⟨rest, rfl⟩ (h.destination hlast) (h.target (hmem hr))
        exact h.fresh (hmem hr) hlast

/-! ## Definitions -/

/-- A line whose definition is redirected: where the trimmed line ends in a definition that leads to
a destination, the first occurrence of that ending is replaced. -/
inductive IsRedefined (redirects : String → String → Prop) (line : List Char) :
    List Char → Prop where
  | ending {d n : String} {before after : List Char} : redirects d n →
      ("]: " ++ d).toList <:+ trim line →
      IsFirst ("]: " ++ d).toList line before after →
        IsRedefined redirects line (before ++ ("]: " ++ n).toList ++ after)
  | plain : (∀ d n, redirects d n → ¬ ("]: " ++ d).toList <:+ trim line) →
        IsRedefined redirects line line

/-- Of two endings that begin with a character they hold nowhere else, neither is part of the
other. -/
theorem eq_of_suffix {mark : Char} {tail tail' cs : List Char} (h : mark :: tail <:+ cs)
    (h' : mark :: tail' <:+ cs) (htail : mark ∉ tail) (htail' : mark ∉ tail') : tail = tail' := by
  have hone : ∀ {tail tail' : List Char}, mark ∉ tail' → mark :: tail <:+ mark :: tail' →
      tail = tail' := by
    intro tail tail' hnone hsuffix
    rcases List.suffix_cons_iff.1 hsuffix with heq | hinner
    · exact (List.cons.inj heq).2
    · exact absurd (hinner.subset List.mem_cons_self) hnone
  rcases List.suffix_or_suffix_of_suffix h h' with hsuffix | hsuffix
  · exact hone htail' hsuffix
  · exact (hone htail hsuffix).symm

theorem definition_eq {d d' : String} {cs : List Char} (h : ("]: " ++ d).toList <:+ cs)
    (h' : ("]: " ++ d').toList <:+ cs) (hd : IsUnmarked d) (hd' : IsUnmarked d') : d = d' := by
  have hlist : ∀ s : String, ("]: " ++ s).toList = ']' :: ':' :: ' ' :: s.toList := by
    intro s
    simp [String.toList_append]
  have hinner : ∀ {s : String}, IsUnmarked s → ']' ∉ ':' :: ' ' :: s.toList := by
    intro s hs
    simp [hs.1]
  rw [hlist] at h h'
  have heq := eq_of_suffix h h' (hinner hd) (hinner hd')
  rw [List.cons.injEq, List.cons.injEq] at heq
  exact String.toList_injective heq.2.2

theorem IsRedefined.unique (h : IsSimultaneous redirects) {out other : List Char}
    (hout : IsRedefined redirects line out) (hother : IsRedefined redirects line other) :
    out = other := by
  cases hout with
  | ending hr hends hfirst =>
      cases hother with
      | ending hr' hends' hfirst' =>
          cases definition_eq hends hends' (h.destination hr) (h.destination hr')
          cases h.unique hr hr'
          rcases hfirst.unique hfirst' with ⟨rfl, rfl⟩
          rfl
      | plain hnone => exact absurd hends (hnone _ _ hr)
  | plain hnone =>
      cases hother with
      | ending hr' hends' _ => exact absurd hends' (hnone _ _ hr')
      | plain => rfl

theorem isRedefined_replaceDefinition (rs : LinkTable) (line : List Char) :
    IsRedefined (fun d n => (d, n) ∈ rs) line (replaceDefinition rs line) := by
  unfold replaceDefinition
  cases hfind : rs.find? fun r => ("]: " ++ r.1).toList.isSuffixOf (trim line) with
  | some r =>
      have hfound := List.find?_some hfind
      have hends : ("]: " ++ r.1).toList <:+ trim line := List.isSuffixOf_iff_suffix.1 hfound
      rcases exists_append_trim line with ⟨before, after, hline, -, -⟩
      rcases hends with ⟨front, hfront⟩
      have hparts : line = (before ++ front) ++ ("]: " ++ r.1).toList ++ after := by
        rw [List.append_assoc before, hfront]
        exact hline
      rcases exists_isFirst (before ++ front) ("]: " ++ r.1).toList after with ⟨first, rest, hfirst⟩
      rw [← hparts] at hfirst
      dsimp only
      rw [replaceFirst_eq hfirst]
      exact .ending (List.mem_of_find?_eq_some hfind) ⟨front, hfront⟩ hfirst
  | none =>
      refine .plain fun d n hr hends => ?_
      have hnone := List.find?_eq_none.1 hfind (d, n) hr
      exact hnone (List.isSuffixOf_iff_suffix.2 hends)

/-! ## Texts -/

/-- A text with its links redirected: inline links all at once, then each line by its definition. -/
def IsRedirected (redirects : String → String → Prop) (src body : List Char) : Prop :=
  ∃ inline lines, Substituted (inlineRule redirects) src inline ∧
    List.Forall₂ (IsRedefined redirects) (inline.splitOn '\n') lines ∧
    body = ['\n'].intercalate lines

/-- Redirects the links of a text, inline links in one order and the definition on each line in an
order of its own. -/
def redirectedIn (inline : LinkTable) (definitions : Nat → LinkTable) (src : List Char) :
    List Char :=
  ['\n'].intercalate
    (((inline.foldl replaceInline src).splitOn '\n').mapIdx fun i line =>
      replaceDefinition (definitions i) line)

theorem replaceLinks_eq_redirectedIn (rs : LinkTable) (src : List Char) :
    replaceLinks rs src = redirectedIn rs (fun _ => rs) src := by
  have hmap : ∀ lines : List (List Char),
      lines.mapIdx (fun _ line => replaceDefinition rs line) =
        lines.map (replaceDefinition rs) := by
    intro lines
    induction lines with
    | nil => rfl
    | cons line lines ih => rw [List.mapIdx_cons, ih, List.map_cons]
  rw [replaceLinks, redirectedIn, hmap]
  split
  · next hempty =>
      have hnone : replaceDefinition [] = id := rfl
      rw [List.isEmpty_iff.1 hempty, hnone, List.map_id, List.foldl_nil, List.intercalate_splitOn]
  · rfl

/-- Every line is redefined, whichever order its entries are tried in. -/
theorem forall₂_redefined
    (h : ∀ i line, IsRedefined redirects line (replaceDefinition (definitions i) line))
    (lines : List (List Char)) : List.Forall₂ (IsRedefined redirects) lines
      (lines.mapIdx fun i line => replaceDefinition (definitions i) line) := by
  induction lines generalizing definitions with
  | nil =>
      exact .nil
  | cons line lines ih =>
      rw [List.mapIdx_cons]
      exact .cons (h 0 line) (ih fun i => h (i + 1))

/-- Any orders give the one text with the links redirected. -/
theorem isRedirected_iff (h : IsSimultaneous fun d n => (d, n) ∈ rs) {inline : LinkTable}
    (hinline : inline.Perm rs) (hdefinitions : ∀ i, (definitions i).Perm rs)
    (src body : List Char) :
    IsRedirected (fun d n => (d, n) ∈ rs) src body ↔
      body = redirectedIn inline definitions src := by
  have hrules : Substituted (inlineRule fun d n => (d, n) ∈ rs) src
      (inline.foldl replaceInline src) := by
    have hfold := substituted_foldl inline (h.mono hinline.mem_iff.1) src
    simpa only [hinline.mem_iff] using hfold
  have hlines : ∀ i line,
      IsRedefined (fun d n => (d, n) ∈ rs) line (replaceDefinition (definitions i) line) := by
    intro i line
    have hline := isRedefined_replaceDefinition (definitions i) line
    simpa only [(hdefinitions i).mem_iff] using hline
  constructor
  · rintro ⟨middle, lines, hmiddle, hforall, rfl⟩
    cases h.substituted_unique hmiddle hrules
    have hunique : Relator.RightUnique (IsRedefined fun d n => (d, n) ∈ rs) :=
      fun _ _ _ hout hother => hout.unique h hother
    rw [redirectedIn, hunique.forall₂ hforall (forall₂_redefined hlines _)]
  · rintro rfl
    exact ⟨_, _, hrules, forall₂_redefined hlines _, rfl⟩

/-! ## Documents -/

/-- A text with the definitions appended that its shortcuts lack. -/
def withShortcuts (table rs : LinkTable) (body : List Char) : String :=
  if (shortcuts table rs body).isEmpty then String.ofList body
  else String.ofList (trimEnd (· == '\n') body) ++ "\n\n" ++ joined "\n" (shortcuts table rs body)

/-- Redirects a document's links, inline links in one order and the definition on each line in an
order of its own. -/
def resolvedIn (table inline : LinkTable) (definitions : Nat → LinkTable) (src : String) : String :=
  withShortcuts table inline (redirectedIn inline definitions src.toList)

theorem resolveLinks_eq (survey : Surveyor) (table : LinkTable) (src : String) :
    resolveLinks survey table src = withShortcuts table
      (replacements table (survey src).destinations)
      (replaceLinks (replacements table (survey src).destinations) src.toList) := by
  cases table with
  | nil =>
      have hnone : ∀ destinations, replacements [] destinations = [] := by
        intro destinations
        refine List.filterMap_eq_nil_iff.2 fun d _ => ?_
        rfl
      rw [hnone]
      simp [resolveLinks, withShortcuts, shortcuts, replaceLinks]
  | cons entry table =>
      rfl

theorem withShortcuts_perm {inline : LinkTable} (h : inline.Perm rs) (table : LinkTable)
    (body : List Char) :
    withShortcuts table inline body = withShortcuts table rs body := by
  have hlookup : ∀ key : String, (inline.lookup key).isSome = (rs.lookup key).isSome := by
    intro key
    rw [Bool.eq_iff_iff, List.lookup_isSome_iff, List.lookup_isSome_iff]
    simp only [h.mem_iff]
  have hshortcuts : shortcuts table inline body = shortcuts table rs body := by
    simp only [shortcuts, hlookup]
  rw [withShortcuts, withShortcuts, hshortcuts]

/-- If neither the destinations that are redirected nor what they stand for hold brackets, and none
stands for another, then resolving the links of a document redirects all inline links at once and
then each line by its definition, before the definitions of shortcuts are appended.  The order in
which destinations and definitions are tried, line by line, changes nothing. -/
theorem resolveLinks_simultaneous (survey : Surveyor) (table : LinkTable) (src : String)
    (hmarks : ∀ d n, Redirects survey table src d n → IsUnmarked d ∧ IsUnmarked n)
    (hfresh : ∀ d n, Redirects survey table src d n → ∀ n', ¬ Redirects survey table src n n') :
    resolveLinks survey table src = withShortcuts table
      (replacements table (survey src).destinations)
      (replaceLinks (replacements table (survey src).destinations) src.toList) ∧
    (∀ body, IsRedirected (Redirects survey table src) src.toList body ↔
      body = replaceLinks (replacements table (survey src).destinations) src.toList) ∧
    ∀ (inline : LinkTable) (definitions : Nat → LinkTable),
      inline.Perm (replacements table (survey src).destinations) →
      (∀ i, (definitions i).Perm (replacements table (survey src).destinations)) →
      resolvedIn table inline definitions src = resolveLinks survey table src := by
  have hentries : (fun d n => (d, n) ∈ replacements table (survey src).destinations) =
      Redirects survey table src := by
    funext d n
    exact propext (mem_replacements _)
  have hsimultaneous : IsSimultaneous (Redirects survey table src) :=
    { destination := fun hr => (hmarks _ _ hr).1
      target := fun hr => (hmarks _ _ hr).2
      fresh := fun hr hr' => hfresh _ _ hr _ hr'
      unique := fun hr hr' => Option.some.inj (hr.2.symm.trans hr'.2) }
  rw [← hentries] at hsimultaneous ⊢
  have hbody : ∀ body,
    IsRedirected (fun d n => (d, n) ∈ replacements table (survey src).destinations)
      src.toList body ↔
        body = replaceLinks (replacements table (survey src).destinations) src.toList := by
    intro body
    rw [replaceLinks_eq_redirectedIn]
    exact isRedirected_iff hsimultaneous (List.Perm.refl _) (fun _ => List.Perm.refl _)
      src.toList body
  refine ⟨resolveLinks_eq survey table src, hbody,
    fun inline definitions hinline hdefinitions => ?_⟩
  have horders :=
    (hbody _).1 ((isRedirected_iff hsimultaneous hinline hdefinitions src.toList _).2 rfl)
  rw [resolvedIn, horders, withShortcuts_perm hinline, resolveLinks_eq]

/-- A document with two inline links and a definition. -/
def crossed : String :=
  "See [A](a), [B](b) and [C][c].\n\n[c]: a\n"

/-- Two names, each with an address that looks like the other name. -/
def addresses : LinkTable :=
  [("a", "/b"), ("b", "/a")]

theorem resolveLinks_simultaneous_crossed :
    ((∀ d n, Redirects survey addresses crossed d n → IsUnmarked d ∧ IsUnmarked n) ∧
      ∀ d n, Redirects survey addresses crossed d n →
        ∀ n', ¬ Redirects survey addresses crossed n n') ∧
    IsRedirected (Redirects survey addresses crossed) crossed.toList
      "See [A](/b), [B](/a) and [C][c].\n\n[c]: /b\n".toList ∧
    resolvedIn addresses [("b", "/a"), ("a", "/b")] (fun _ => [("b", "/a"), ("a", "/b")]) crossed =
      resolveLinks survey addresses crossed := by
  have hentries : replacements addresses (survey crossed).destinations = addresses := by
    decide +kernel
  have hmem : ∀ d n, Redirects survey addresses crossed d n → (d, n) ∈ addresses := by
    intro d n hr
    have h := (mem_replacements (survey crossed).destinations).2 hr
    rwa [hentries] at h
  have hunmarked : ∀ r ∈ addresses, IsUnmarked r.1 ∧ IsUnmarked r.2 := by
    decide
  have hapart : ∀ r ∈ addresses, ∀ r' ∈ addresses, r.2 ≠ r'.1 := by
    decide
  have hmarks : ∀ d n, Redirects survey addresses crossed d n → IsUnmarked d ∧ IsUnmarked n :=
    fun d n hr => hunmarked (d, n) (hmem d n hr)
  have hfresh : ∀ d n, Redirects survey addresses crossed d n →
      ∀ n', ¬ Redirects survey addresses crossed n n' :=
    fun d n hr n' hr' => hapart (d, n) (hmem d n hr) (n, n') (hmem n n' hr') rfl
  have hperm : [("b", "/a"), ("a", "/b")].Perm
      (replacements addresses (survey crossed).destinations) := by
    rw [hentries]
    exact .swap _ _ _
  have hbody : "See [A](/b), [B](/a) and [C][c].\n\n[c]: /b\n".toList =
      replaceLinks (replacements addresses (survey crossed).destinations) crossed.toList := by
    decide +kernel
  rcases resolveLinks_simultaneous survey addresses crossed hmarks hfresh with
    ⟨-, hredirected, horders⟩
  exact ⟨⟨hmarks, hfresh⟩, (hredirected _).2 hbody, horders _ _ hperm fun _ => hperm⟩

end Markdown
end ApiPages

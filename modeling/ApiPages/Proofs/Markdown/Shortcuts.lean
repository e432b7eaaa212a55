import ApiPages.Proofs.Markdown.Redirections

/-!
# Shortcuts

A name that stands in brackets and leads nowhere else in the document gets a definition at the end
of it.

* `redirected` is a document with its links redirected, without the definitions at its end;
* `mem_shortcuts` says which names get a definition, `standsAlone_joined` where it stands;
* `resolveLinks_defines` says so of documents.
-/

namespace ApiPages
namespace Markdown

open Text

variable {table rs : LinkTable} {body : List Char} {k n : String}

/-- A document with its links redirected, before definitions are appended. -/
def redirected (survey : Surveyor) (table : LinkTable) (src : String) : List Char :=
  replaceLinks (replacements table (survey src).destinations) src.toList

/-- A name in brackets. -/
def bracketed (k : String) : List Char :=
  ("[" ++ k ++ "]").toList

/-- The lines that define names by a table. -/
def definitions (table : LinkTable) (names : List String) : List String :=
  names.map fun name => "[" ++ name ++ "]: " ++ (table.lookup name).getD ""

/-- How the definition of a name begins. -/
def definitionStart (k : String) : List Char :=
  ("[" ++ k ++ "]: ").toList

/-- The text stands at the beginning of a line, and what follows it begins with the end of the
line. -/
def StandsAlone (cs text : List Char) : Prop :=
  ∃ front back, cs = front ++ '\n' :: text ++ back ∧ ∀ c ∈ back.head?, c = '\n'

theorem getLast?_definitionStart (k : String) : ∀ c ∈ (definitionStart k).getLast?, c ≠ '\n' := by
  have hsplit : definitionStart k = ("[" ++ k ++ "]:").toList ++ [' '] := by
    simp [definitionStart]
  rw [hsplit, List.getLast?_concat]
  simp

/-! ## Names that get a definition -/

/-- A name that is no destination of a document is not redirected. -/
theorem lookup_replacements_eq_none {destinations : List String} (h : k ∉ destinations) :
    (replacements table destinations).lookup k = none := by
  rw [← Option.not_isSome_iff_eq_none, List.lookup_isSome_iff]
  rintro ⟨⟨d, n⟩, hentry, hk⟩
  have hd : d ∈ destinations := ((mem_replacements destinations).1 hentry).1
  rw [beq_iff_eq] at hk
  exact h (hk ▸ hd)

theorem filterMap_eq_map_filter {α β : Type} {f : α → Option β} {p : α → Bool} {g : α → β}
    {xs : List α} (h : ∀ x ∈ xs, f x = if p x then some (g x) else none) :
    xs.filterMap f = (xs.filter p).map g := by
  rw [← List.filterMap_eq_map, List.filterMap_filter]
  exact List.filterMap_congr h

/-- Whether a name needs no definition: it was redirected, it is not used, or it is defined. -/
def isSettled (rs : LinkTable) (body : List Char) (key : String) : Bool :=
  (rs.lookup key).isSome || !occurs ("[" ++ key ++ "]").toList body ||
    occurs ("[" ++ key ++ "]: ").toList body

theorem shortcuts_eq_definitions (table rs : LinkTable) (body : List Char) :
    shortcuts table rs body = definitions table
      (((table.map (·.1)).mergeSort (· ≤ ·)).filter fun key => !isSettled rs body key) := by
  refine filterMap_eq_map_filter fun key hkey => ?_
  obtain ⟨n, hn⟩ : ∃ n, table.lookup key = some n := by
    rw [List.mem_mergeSort, List.mem_map] at hkey
    obtain ⟨entry, hentry, rfl⟩ := hkey
    exact Option.isSome_iff_exists.1 (List.lookup_isSome_iff.2 ⟨entry, hentry, beq_self_eq_true _⟩)
  change (if isSettled rs body key then none else _) = _
  rw [hn]
  cases isSettled rs body key <;> rfl

/-- What is appended defines names that are no destinations. -/
theorem exists_shortcuts_eq (table : LinkTable) (destinations : List String) (body : List Char) :
    ∃ names : List String, (∀ name ∈ names, name ∉ destinations) ∧
      shortcuts table (replacements table destinations) body = definitions table names := by
  refine ⟨_, fun name hname hdestination => ?_, shortcuts_eq_definitions table _ body⟩
  obtain ⟨hkey, hneeded⟩ := List.mem_filter.1 hname
  rw [List.mem_mergeSort, List.mem_map] at hkey
  obtain ⟨entry, hentry, rfl⟩ := hkey
  obtain ⟨n, hn⟩ := Option.isSome_iff_exists.1
    (List.lookup_isSome_iff.2 ⟨entry, hentry, beq_self_eq_true entry.1⟩)
  -- a destination of the table has been redirected
  have hfound : ((replacements table destinations).lookup entry.1).isSome = true :=
    List.lookup_isSome_iff.2
      ⟨_, (mem_replacements destinations).2 ⟨hdestination, hn⟩, beq_self_eq_true entry.1⟩
  rw [isSettled, hfound] at hneeded
  cases hneeded

theorem mem_shortcuts (hkey : table.lookup k = some n) (hother : rs.lookup k = none)
    (hused : bracketed k <:+: body) (hundefined : ¬definitionStart k <:+: body) :
    "[" ++ k ++ "]: " ++ n ∈ shortcuts table rs body := by
  have hmem : k ∈ (table.map (·.1)).mergeSort (· ≤ ·) := by
    have hsome : (table.lookup k).isSome = true := by
      rw [hkey]
      rfl
    obtain ⟨⟨d, n'⟩, hentry, hk⟩ := (List.lookup_isSome_iff).1 hsome
    rw [beq_iff_eq] at hk
    rw [List.mem_mergeSort, hk]
    exact List.mem_map_of_mem hentry
  refine List.mem_filterMap.2 ⟨k, hmem, ?_⟩
  have huse : occurs ("[" ++ k ++ "]").toList body = true := occurs_iff.2 hused
  have hdef : occurs ("[" ++ k ++ "]: ").toList body = false :=
    Bool.eq_false_iff.2 fun h => hundefined (occurs_iff.1 h)
  simp only [hother, huse, hdef, hkey, Option.isSome_none, Bool.not_true, Bool.or_false,
    Bool.false_eq_true, if_false, Option.map_some]

/-! ## Where definitions stand -/

/-- What ends in another character than a line break is not trimmed away. -/
theorem infix_trimEnd {needle : List Char} (hends : ∀ c ∈ needle.getLast?, c ≠ '\n')
    (h : needle <:+: body) : needle <:+: trimEnd (· == '\n') body := by
  obtain ⟨front, back, rfl⟩ := h
  cases needle with
  | nil =>
      exact List.nil_infix
  | cons c needle =>
      have hlast : ∀ d ∈ (front ++ c :: needle).getLast?, (d == '\n') = false := by
        intro d hd
        rw [List.getLast?_append_of_ne_nil _ (List.cons_ne_nil c needle)] at hd
        exact beq_eq_false_iff_ne.2 (hends d hd)
      rw [trimEnd_append hlast]
      exact List.infix_append ..

/-- Each of several texts that are joined line by line stands alone. -/
theorem standsAlone_joined {texts : List String} {text : String} (h : text ∈ texts)
    (front : List Char) :
    StandsAlone (front ++ '\n' :: (joined "\n" texts).toList) text.toList := by
  obtain ⟨before, after, rfl⟩ := List.append_of_mem h
  rw [joined, String.toList_intercalate]
  induction before generalizing front with
  | nil =>
      cases after with
      | nil =>
          exact ⟨front, [], by simp, by simp⟩
      | cons next after =>
          refine ⟨front, '\n' :: ['\n'].intercalate ((next :: after).map String.toList),
            ?_, by simp⟩
          simp [List.intercalate_cons_cons]
  | cons first before ih =>
      -- the texts in front are one longer, so the joined texts begin one line further down
      obtain ⟨front', back, heq, hback⟩ := ih (h := by simp) (front ++ '\n' :: first.toList)
      refine ⟨front', back, ?_, hback⟩
      rw [← heq]
      cases before with
      | nil =>
          simp [List.intercalate_cons_cons]
      | cons second before =>
          simp [List.intercalate_cons_cons]

theorem resolveLinks_eq_withShortcuts (survey : Surveyor) (table : LinkTable) (src : String) :
    resolveLinks survey table src = withShortcuts table
      (replacements table (survey src).destinations)
      (redirected survey table src) :=
  resolveLinks_eq survey table src

theorem toList_withShortcuts (h : shortcuts table rs body ≠ []) :
    (withShortcuts table rs body).toList = trimEnd (· == '\n') body ++
      '\n' :: '\n' :: (joined "\n" (shortcuts table rs body)).toList := by
  rw [withShortcuts, if_neg (by rw [List.isEmpty_iff]; exact h)]
  simp [String.toList_append]

/-! ## Documents -/

theorem exists_toList_resolveLinks (survey : Surveyor) (table : LinkTable) (src : String) :
    ∃ names : List String, (∀ name ∈ names, name ∉ (survey src).destinations) ∧
      (resolveLinks survey table src).toList =
        if names = [] then redirected survey table src
        else trimEnd (· == '\n') (redirected survey table src) ++
          '\n' :: '\n' :: (joined "\n" (definitions table names)).toList := by
  obtain ⟨names, hnames, hdefs⟩ := exists_shortcuts_eq table (survey src).destinations
    (redirected survey table src)
  refine ⟨names, hnames, ?_⟩
  rw [resolveLinks_eq_withShortcuts]
  by_cases hnone : names = []
  · rw [if_pos hnone, withShortcuts, hdefs, hnone]
    simp [definitions]
  · have hne : shortcuts table (replacements table (survey src).destinations)
        (redirected survey table src) ≠ [] := by
      rw [hdefs]
      exact fun h => hnone (List.map_eq_nil_iff.1 h)
    rw [if_neg hnone, toList_withShortcuts hne, hdefs]

/-- What is appended to a document defines no destination of its links.  A name of the table that is
no destination, and that stands in brackets in the document once the links are redirected, is
defined in the result: by a line of its own among those at the end, unless the document holds the
beginning of a definition of it already. -/
theorem resolveLinks_defines (survey : Surveyor) (table : LinkTable) (src k n : String)
    (hkey : table.lookup k = some n) (hdestination : k ∉ (survey src).destinations)
    (hused : bracketed k <:+: redirected survey table src) :
    (∃ names : List String, (∀ name ∈ names, name ∉ (survey src).destinations) ∧
      (resolveLinks survey table src).toList =
        if names = [] then redirected survey table src
        else trimEnd (· == '\n') (redirected survey table src) ++
          '\n' :: '\n' :: (joined "\n" (definitions table names)).toList) ∧
    definitionStart k <:+: (resolveLinks survey table src).toList ∧
      (¬definitionStart k <:+: redirected survey table src →
        StandsAlone (resolveLinks survey table src).toList (definitionStart k ++ n.toList)) := by
  have hother : (replacements table (survey src).destinations).lookup k = none :=
    lookup_replacements_eq_none hdestination
  have halone : ¬definitionStart k <:+: redirected survey table src →
      StandsAlone (resolveLinks survey table src).toList (definitionStart k ++ n.toList) := by
    intro hundefined
    have hmem := mem_shortcuts hkey hother hused hundefined
    have hline :=
      standsAlone_joined hmem (trimEnd (· == '\n') (redirected survey table src) ++ ['\n'])
    rw [resolveLinks_eq_withShortcuts, toList_withShortcuts (List.ne_nil_of_mem hmem)]
    simpa [definitionStart] using hline
  refine ⟨exists_toList_resolveLinks survey table src, ?_, halone⟩
  by_cases hdefined : definitionStart k <:+: redirected survey table src
  · -- what is there already is kept when definitions are appended
    rw [resolveLinks_eq_withShortcuts]
    by_cases hnone : shortcuts table (replacements table (survey src).destinations)
        (redirected survey table src) = []
    · rw [withShortcuts, if_pos (by rw [hnone]; rfl), String.toList_ofList]
      exact hdefined
    · rw [toList_withShortcuts hnone]
      exact (infix_trimEnd (getLast?_definitionStart k) hdefined).trans
        (List.prefix_append ..).isInfix
  · obtain ⟨front, back, heq, -⟩ := halone hdefined
    rw [heq]
    exact ⟨front ++ ['\n'], n.toList ++ back, by simp⟩

/-- A name in brackets, beside a link to another one. -/
def engine : String :=
  "Built by [`Engine`] and [the pool](Pool).\n"

def engineTable : LinkTable :=
  [("`Engine`", "/engine"), ("Pool", "/pool")]

theorem resolveLinks_defines_engine :
    (engineTable.lookup "`Engine`" = some "/engine" ∧ "`Engine`" ∉ (survey engine).destinations ∧
      bracketed "`Engine`" <:+: redirected survey engineTable engine) ∧
    StandsAlone (resolveLinks survey engineTable engine).toList "[`Engine`]: /engine".toList := by
  have hdestination : "`Engine`" ∉ (survey engine).destinations := by
    decide +kernel
  have hused : bracketed "`Engine`" <:+: redirected survey engineTable engine :=
    occurs_iff.1 (by decide +kernel)
  have hundefined : ¬definitionStart "`Engine`" <:+: redirected survey engineTable engine := by
    rw [← occurs_iff]
    decide +kernel
  obtain ⟨-, -, halone⟩ := resolveLinks_defines survey engineTable engine "`Engine`" "/engine" rfl
    hdestination hused
  exact ⟨⟨rfl, hdestination, hused⟩, halone hundefined⟩

/-- A name that is a destination as well is not defined, nor is a name that stands in brackets in a
definition only. -/
theorem shortcut_undefined :
    (resolveLinks survey [("a", "/a")] "See [A](a) and [a]." = "See [A](/a) and [a]." ∧
      bracketed "a" ++ ['.'] <:+: "See [A](/a) and [a].".toList ∧
      ¬definitionStart "a" <:+: "See [A](/a) and [a].".toList) ∧
    (resolveLinks survey [("a", "/a"), ("b", "[a]")] "See [b]." = "See [b].\n\n[b]: [a]" ∧
      bracketed "a" <:+ "See [b].\n\n[b]: [a]".toList ∧
      ¬definitionStart "a" <:+: "See [b].\n\n[b]: [a]".toList) := by
  have hsorted : ["a", "b"].mergeSort (· ≤ ·) = ["a", "b"] := List.mergeSort_of_pairwise (by decide)
  have hbody : redirected survey [("a", "/a"), ("b", "[a]")] "See [b]." = "See [b].".toList := by
    decide +kernel
  have hnone : replacements [("a", "/a"), ("b", "[a]")] (survey "See [b].").destinations = [] := by
    decide +kernel
  have hdefs : shortcuts [("a", "/a"), ("b", "[a]")] [] "See [b].".toList = ["[b]: [a]"] := by
    rw [shortcuts, List.map_cons, List.map_cons, List.map_nil]
    dsimp only
    rw [hsorted]
    decide
  refine ⟨⟨by decide +kernel, ?_, ?_⟩, ?_, ?_, ?_⟩
  · exact occurs_iff.1 (by decide)
  · rw [← occurs_iff]
    decide
  · rw [resolveLinks_eq_withShortcuts, hbody, hnone, withShortcuts, hdefs]
    decide
  · exact List.isSuffixOf_iff_suffix.1 (by decide)
  · rw [← occurs_iff]
    decide

end Markdown
end ApiPages

import ApiPages.Markdown.Heading
import ApiPages.Proofs.Text.Blank
import ApiPages.Proofs.Text.Endings
import ApiPages.Proofs.Text.Runs

/-!
# Classes of lines

What the recognisers of single lines accept, as shapes: `atx?_eq_some_iff` for heading lines,
`Fence.opening?_eq_some_iff` for the lines that open fenced blocks.  The classes exclude each other,
because a line of each begins with a character of its own behind its indentation (`lead?`).

A document is edited as its lines: `linesOf` cuts it, and `ofLines` puts lines together.
-/

namespace ApiPages
namespace Markdown

open Text

variable {line indent body rest : List Char}

/-! ## Documents as lines -/

def linesOf (src : String) : List (List Char) :=
  src.toList.splitOn '\n'

def ofLines (lines : List (List Char)) : String :=
  String.ofList (['\n'].intercalate lines)

theorem linesOf_ofLines {lines : List (List Char)} (hne : lines ≠ [])
    (hlines : ∀ line ∈ lines, '\n' ∉ line) : linesOf (ofLines lines) = lines := by
  rw [linesOf, ofLines, String.toList_ofList, List.splitOn_intercalate '\n' hlines hne]

theorem linesOf_ne_nil (src : String) : linesOf src ≠ [] :=
  List.splitOn_ne_nil '\n' src.toList

theorem not_mem_linesOf (src : String) : ∀ line ∈ linesOf src, '\n' ∉ line :=
  not_mem_of_mem_splitOn '\n' src.toList

/-! ## Indentation -/

/-- At most three characters of white space that a line begins with. -/
structure IsIndent (indent : List Char) : Prop where
  space : ∀ c ∈ indent, isSpace c = true
  short : indent.length ≤ 3

theorem indent?_eq_some_iff : indent? line = some (indent, body) ↔
    line = indent ++ body ∧ IsIndent indent ∧ ∀ c ∈ body.head?, isSpace c = false := by
  constructor
  · intro h
    rw [indent?] at h
    split at h
    · next hshort =>
        cases h
        exact ⟨List.takeWhile_append_dropWhile.symm,
          ⟨fun _ hc => List.mem_takeWhile_imp hc, hshort⟩, head?_dropWhile_run isSpace line⟩
    · cases h
  · rintro ⟨rfl, hindent, hbody⟩
    rw [indent?, takeWhile_run hindent.space hbody, dropWhile_run hindent.space hbody,
      if_pos hindent.short]

theorem IsIndent.indent? (h : IsIndent indent) (hbody : ∀ c ∈ body.head?, isSpace c = false) :
    indent? (indent ++ body) = some (indent, body) :=
  indent?_eq_some_iff.2 ⟨rfl, h, hbody⟩

/-- The first character of a line behind its indentation. -/
def lead? (line : List Char) : Option Char :=
  (line.dropWhile isSpace).head?

theorem lead?_append (h : IsIndent indent) (hbody : ∀ c ∈ body.head?, isSpace c = false) :
    lead? (indent ++ body) = body.head? := by
  rw [lead?, dropWhile_run h.space hbody]

theorem lead?_of_indent? (h : indent? line = some (indent, body)) : lead? line = body.head? := by
  rcases indent?_eq_some_iff.1 h with ⟨rfl, hindent, hbody⟩
  exact lead?_append hindent hbody

/-! ## Marks -/

theorem head?_replicate_append {n : Nat} (h : 1 ≤ n) (mark : Char) (rest : List Char) :
    (List.replicate n mark ++ rest).head? = some mark := by
  cases n with
  | zero =>
      cases h
  | succ n =>
      rfl

/-- A mark that is no white space ends the indentation. -/
theorem not_isSpace_head {n : Nat} (h : 1 ≤ n) {mark : Char} (hmark : isSpace mark = false)
    (rest : List Char) : ∀ c ∈ (List.replicate n mark ++ rest).head?, isSpace c = false := by
  intro c hc
  rw [head?_replicate_append h] at hc
  cases hc
  exact hmark

theorem lead?_replicate (hindent : IsIndent indent) {n : Nat} (h : 1 ≤ n) {mark : Char}
    (hmark : isSpace mark = false) (rest : List Char) :
    lead? (indent ++ (List.replicate n mark ++ rest)) = some mark := by
  rw [lead?_append hindent (not_isSpace_head h hmark rest), head?_replicate_append h]

/-! ## Heading lines -/

theorem ends_iff (rest : List Char) :
    (match rest with
      | [] => true
      | c :: _ => isSpace c) = true ↔ ∀ c ∈ rest.head?, isSpace c = true := by
  cases rest with
  | nil =>
      simp
  | cons c rest =>
      simp

theorem atx?_eq_some_iff {level : Nat} : atx? line = some (indent, level, rest) ↔
    line = indent ++ (List.replicate level '#' ++ rest) ∧ IsIndent indent ∧ 1 ≤ level ∧ level ≤ 6 ∧
      ∀ c ∈ rest.head?, isSpace c = true := by
  constructor
  · intro h
    cases hindent : indent? line with
    | none =>
        rw [atx?, hindent] at h
        cases h
    | some parts =>
        rcases parts with ⟨found, body⟩
        rcases indent?_eq_some_iff.1 hindent with ⟨hline, hfound, -⟩
        rw [atx?, hindent] at h
        simp only [Option.bind_eq_bind, Option.bind_some, Option.ite_none_right_eq_some,
          Bool.and_eq_true, decide_eq_true_eq, Option.some.injEq, Prod.mk.injEq] at h
        rcases h with ⟨⟨⟨hfirst, hlast⟩, hends⟩, rfl, rfl, rfl⟩
        rcases exists_copies '#' body with ⟨hbody, -⟩
        exact ⟨by rw [← hbody, hline], hfound, hfirst, hlast, (ends_iff _).1 hends⟩
  · rintro ⟨rfl, hindent, hfirst, hlast, hrest⟩
    have hsign : ∀ c ∈ rest.head?, c ≠ '#' := by
      rintro c hc rfl
      cases hrest '#' hc
    rw [atx?, hindent.indent? (not_isSpace_head hfirst rfl rest)]
    simp only [Option.bind_eq_bind, Option.bind_some]
    rw [takeWhile_replicate_append level hsign, List.length_replicate,
      List.drop_left' List.length_replicate]
    exact if_pos (Bool.and_eq_true_iff.2
      ⟨Bool.and_eq_true_iff.2 ⟨decide_eq_true hfirst, decide_eq_true hlast⟩,
        (ends_iff rest).2 hrest⟩)

theorem lead?_of_atx? {level : Nat} (h : atx? line = some (indent, level, rest)) :
    lead? line = some '#' := by
  rcases atx?_eq_some_iff.1 h with ⟨rfl, hindent, hfirst, -, -⟩
  exact lead?_replicate hindent hfirst rfl rest

/-! ### Heading lines that are moved down -/

theorem demotedLevel_pos {level : Nat} (h : 1 ≤ level) (offset : Nat) :
    1 ≤ demotedLevel offset level := by
  rw [demotedLevel]
  omega

theorem demotedLevel_le (offset level : Nat) : demotedLevel offset level ≤ 6 := by
  rw [demotedLevel]
  omega

/-- Levels that are moved twice end where one move by both distances ends. -/
theorem demotedLevel_demotedLevel (a b level : Nat) :
    demotedLevel b (demotedLevel a level) = demotedLevel (a + b) level := by
  rw [demotedLevel, demotedLevel, demotedLevel]
  omega

theorem atx?_demotedAtx {level : Nat} (h : atx? line = some (indent, level, rest)) (offset : Nat) :
    atx? (demotedAtx offset indent level rest) =
      some (indent, demotedLevel offset level, rest) := by
  rcases atx?_eq_some_iff.1 h with ⟨-, hindent, hfirst, -, hrest⟩
  refine atx?_eq_some_iff.2
    ⟨?_, hindent, demotedLevel_pos hfirst offset, demotedLevel_le offset level, hrest⟩
  rw [demotedAtx, List.append_assoc]

/-- An underlined title becomes a heading line. -/
theorem atx?_demotedTitle {level : Nat} (h : 1 ≤ level) (offset : Nat) (line : List Char) :
    atx? (demotedTitle offset level line) =
      some ([], demotedLevel offset level, ' ' :: trim line) := by
  refine atx?_eq_some_iff.2
    ⟨rfl, ⟨by simp, by simp⟩, demotedLevel_pos h offset, demotedLevel_le offset level, ?_⟩
  intro c hc
  cases hc
  rfl

theorem demotedAtx_demotedLevel (a b : Nat) (indent : List Char) (level : Nat) (rest : List Char) :
    demotedAtx b indent (demotedLevel a level) rest = demotedAtx (a + b) indent level rest := by
  rw [demotedAtx, demotedAtx, demotedLevel_demotedLevel]

theorem demotedAtx_title (a b level : Nat) (line : List Char) :
    demotedAtx b [] (demotedLevel a level) (' ' :: trim line) =
      demotedTitle (a + b) level line := by
  rw [demotedAtx_demotedLevel]
  rfl

/-! ## Underlines -/

theorem underline?_cases {level : Nat} (h : underline? line = some level) :
    1 ≤ level ∧ (lead? line = some '=' ∨ lead? line = some '-') := by
  cases hindent : indent? line with
  | none =>
      rw [underline?, hindent] at h
      cases h
  | some parts =>
      rcases parts with ⟨indent, body⟩
      rw [underline?, hindent] at h
      cases hhead : body.head? with
      | none =>
          simp [hhead] at h
      -- an underline consists of copies of its mark, so the mark is also its first character
      | some mark =>
          rw [lead?_of_indent? hindent, hhead]
          simp only [Option.bind_eq_bind, Option.bind_some, hhead] at h
          split at h
          · next hmark =>
              split at h
              · cases h
                refine ⟨?_, by simpa using hmark⟩
                split <;> omega
              · cases h
          · cases h

/-! ## Opening lines -/

namespace Fence

/-- The characters of the first word behind a mark. -/
def isWordChar (c : Char) : Bool :=
  !isSpace c && c != '`'

/-- The parts of an opening line: indentation, mark, blanks, a word and the rest. -/
structure IsOpening (line : List Char) (o : Opening) (indent gap : List Char) : Prop where
  line_eq : line =
    indent ++ (List.replicate o.fence.size o.fence.mark ++ (gap ++ (o.word ++ o.rest)))
  indented : IsIndent indent
  mark : o.fence.mark = '`' ∨ o.fence.mark = '~'
  size : 3 ≤ o.fence.size
  mark_ends : ∀ c ∈ (gap ++ (o.word ++ o.rest)).head?, c ≠ o.fence.mark
  gap_space : ∀ c ∈ gap, isSpace c = true
  gap_ends : ∀ c ∈ (o.word ++ o.rest).head?, isSpace c = false
  word_chars : ∀ c ∈ o.word, isWordChar c = true
  word_ends : ∀ c ∈ o.rest.head?, isWordChar c = false

variable {o : Opening} {gap : List Char}

theorem IsOpening.mark_not_space (h : IsOpening line o indent gap) :
    isSpace o.fence.mark = false := by
  rcases h.mark with hmark | hmark <;> rw [hmark] <;> rfl

/-- Whatever follows a mark, it falls into blanks, a word and the rest. -/
theorem isOpening_append (hindent : IsIndent indent) {f : Fence}
    (hmark : f.mark = '\x60' ∨ f.mark = '~') (hsize : 3 ≤ f.size) {after : List Char}
    (hends : ∀ c ∈ after.head?, c ≠ f.mark) :
    IsOpening (indent ++ (List.replicate f.size f.mark ++ after))
      { fence := f
        word := (after.dropWhile isSpace).takeWhile isWordChar
        rest :=
          (after.dropWhile isSpace).dropWhile isWordChar } indent (after.takeWhile isSpace) := by
  have hword := List.takeWhile_append_dropWhile (p := isWordChar) (l := after.dropWhile isSpace)
  have hafter := List.takeWhile_append_dropWhile (p := isSpace) (l := after)
  exact
    { line_eq := by rw [hword, hafter]
      indented := hindent
      mark := hmark
      size := hsize
      mark_ends := by rwa [hword, hafter]
      gap_space := fun _ hc => List.mem_takeWhile_imp hc
      gap_ends := hword.symm ▸ head?_dropWhile_run isSpace after
      word_chars := fun _ hc => List.mem_takeWhile_imp hc
      word_ends := head?_dropWhile_run isWordChar _ }

theorem opening?_eq_some_iff :
    opening? line = some o ↔ ∃ indent gap, IsOpening line o indent gap := by
  constructor
  · intro h
    cases hindent : indent? line with
    | none =>
        rw [opening?, hindent] at h
        cases h
    | some parts =>
        rcases parts with ⟨indent, body⟩
        rcases indent?_eq_some_iff.1 hindent with ⟨hline, hindented, -⟩
        rw [opening?, hindent] at h
        cases hhead : body.head? with
        | none =>
            simp [hhead] at h
        | some mark =>
            simp only [Option.bind_eq_bind, Option.bind_some, hhead, Option.ite_none_right_eq_some,
              Bool.and_eq_true, Bool.or_eq_true, beq_iff_eq, decide_eq_true_eq,
              Option.some.injEq] at h
            rcases h with ⟨⟨hmark, hsize⟩, rfl⟩
            rcases exists_copies mark body with ⟨hbody, hends⟩
            have hopening := isOpening_append hindented
              (f := { mark := mark, size := (body.takeWhile (· == mark)).length }) hmark hsize hends
            rw [← hbody, ← hline] at hopening
            exact ⟨indent, _, hopening⟩
  · rintro ⟨indent, gap, h⟩
    have hpos : 1 ≤ o.fence.size := Nat.le_trans (by decide) h.size
    have hmark : ((o.fence.mark == '\x60' || o.fence.mark == '~') && decide (3 ≤ o.fence.size)) =
        true := by
      rw [decide_eq_true h.size, Bool.and_true, Bool.or_eq_true, beq_iff_eq, beq_iff_eq]
      exact h.mark
    rw [h.line_eq, opening?, h.indented.indent? (not_isSpace_head hpos h.mark_not_space _)]
    simp only [Option.bind_eq_bind, Option.bind_some, head?_replicate_append hpos]
    rw [takeWhile_replicate_append _ h.mark_ends, List.length_replicate,
      List.drop_left' List.length_replicate, dropWhile_run h.gap_space h.gap_ends, if_pos hmark]
    -- the recogniser cuts the parts off one after the other, each a run that ends where the next
    -- begins
    change some { fence := o.fence, word := (o.word ++ o.rest).takeWhile isWordChar,
                  rest := (o.word ++ o.rest).dropWhile isWordChar } = some o
    rw [takeWhile_run h.word_chars h.word_ends, dropWhile_run h.word_chars h.word_ends]

theorem IsOpening.lead? (h : IsOpening line o indent gap) : lead? line = some o.fence.mark := by
  rw [h.line_eq]
  exact lead?_replicate h.indented (Nat.le_trans (by decide) h.size) h.mark_not_space _

theorem lead?_of_opening? (h : opening? line = some o) :
    Markdown.lead? line = some '\x60' ∨ Markdown.lead? line = some '~' := by
  rcases opening?_eq_some_iff.1 h with ⟨indent, gap, h⟩
  rw [h.lead?]
  rcases h.mark with hmark | hmark <;> rw [hmark] <;> simp

end Fence

/-! ## Lines of different classes -/

theorem opening?_eq_none_of_atx? {heading : List Char × Nat × List Char}
    (h : atx? line = some heading) :
    Fence.opening? line = none := by
  refine Option.eq_none_iff_forall_ne_some.2 fun o ho => ?_
  have hlead := Fence.lead?_of_opening? ho
  rw [lead?_of_atx? h] at hlead
  simp at hlead

theorem underline?_eq_none_of_atx? {heading : List Char × Nat × List Char}
    (h : atx? line = some heading) :
    underline? line = none := by
  refine Option.eq_none_iff_forall_ne_some.2 fun level hlevel => ?_
  have hlead := (underline?_cases hlevel).2
  rw [lead?_of_atx? h] at hlead
  simp at hlead

theorem underline?_eq_none_of_opening? {o : Fence.Opening} (h : Fence.opening? line = some o) :
    underline? line = none := by
  refine Option.eq_none_iff_forall_ne_some.2 fun level hlevel => ?_
  have hlead := (underline?_cases hlevel).2
  rcases Fence.lead?_of_opening? h with hmark | hmark <;> rw [hmark] at hlead <;> simp at hlead

end Markdown
end ApiPages

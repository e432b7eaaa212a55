import ApiPages.Markdown.Inline
import ApiPages.Proofs.Markdown.Lines

/-!
# Moving headings twice

The lines of a document are gone through in steps of five kinds; `Passage` names them, and there is
one lemma a kind that says what `demoteLines` does.

* `demoteLines_demoteLines` says that two passes move headings as far as one by both distances;
* `demoteHeadings_demoteHeadings` says so of documents.
-/

namespace ApiPages
namespace Markdown

open Text

variable {line next : List Char} {rest lines : List (List Char)} {fence : Option Fence}

/-! ## Steps through a document -/

/-- The level of the heading that a line is the title of, when the next line underlines it. -/
def titleLevel? (line : List Char) (rest : List (List Char)) : Option Nat :=
  if isParagraph line then rest.head?.bind underline? else none

theorem titleLevel?_pos {level : Nat} (h : titleLevel? line rest = some level) : 1 ≤ level := by
  rw [titleLevel?] at h
  split at h
  · rcases Option.bind_eq_some_iff.1 h with ⟨next, -, hnext⟩
    exact (underline?_cases hnext).1
  · cases h

theorem opening?_eq_none_of_titleLevel? {level : Nat}
    (h : titleLevel? line (next :: rest) = some level) :
    Fence.opening? next = none := by
  refine Option.eq_none_iff_forall_ne_some.2 fun o ho => ?_
  rw [titleLevel?, List.head?_cons, Option.bind_some, underline?_eq_none_of_opening? ho,
    ite_self] at h
  cases h

/-- The lines of a document, one step after the other. -/
inductive Passage : Option Fence → List (List Char) → Prop where
  | done (fence : Option Fence) : Passage fence []
  | fenced (f : Fence) (line : List Char) {rest : List (List Char)} :
      Passage (if f.closes line then none else some f) rest → Passage (some f) (line :: rest)
  | opening {line : List Char} {o : Fence.Opening} {rest : List (List Char)} :
      Fence.opening? line = some o → Passage (some o.fence) rest → Passage none (line :: rest)
  | heading {line indent after : List Char} {level : Nat} {rest : List (List Char)} :
      atx? line = some (indent, level, after) → Passage none rest → Passage none (line :: rest)
  | title {line next : List Char} {level : Nat} {rest : List (List Char)} :
      Fence.opening? line = none → atx? line = none → titleLevel? line (next :: rest) = some level →
        Passage none rest → Passage none (line :: next :: rest)
  | plain {line : List Char} {rest : List (List Char)} :
      Fence.opening? line = none → atx? line = none → titleLevel? line rest = none →
        Passage none rest → Passage none (line :: rest)

theorem passage (fence : Option Fence) (lines : List (List Char)) : Passage fence lines := by
  induction fence, lines using demoteLines.induct with
  | case1 fence =>
      exact .done fence
  | case2 line rest f ih =>
      exact .fenced f line ih
  | case3 line rest o hopen ih =>
      exact .opening hopen ih
  | case4 line rest _ indent level after hatx ih =>
      exact .heading hatx ih
  | case5 line hopen hatx =>
      -- the last line has nothing below it that could underline it
      exact .plain hopen hatx (by simp [titleLevel?]) (.done none)
  | case6 line hopen hatx next rest level hlevel ih =>
      exact .title hopen hatx hlevel ih
  | case7 line hopen hatx next rest hlevel ih =>
      exact .plain hopen hatx hlevel ih

section Steps

variable (offset : Nat)

theorem demoteLines_nil (fence : Option Fence) : demoteLines offset fence [] = [] := by
  rw [demoteLines]

theorem demoteLines_fenced (f : Fence) (line : List Char) (rest : List (List Char)) :
    demoteLines offset (some f) (line :: rest) =
      line :: demoteLines offset (if f.closes line then none else some f) rest :=
  rfl

theorem demoteLines_opening {o : Fence.Opening} (h : Fence.opening? line = some o)
    (rest : List (List Char)) :
    demoteLines offset none (line :: rest) = line :: demoteLines offset (some o.fence) rest := by
  rw [demoteLines.eq_def]
  simp only [h]

theorem demoteLines_heading {indent after : List Char} {level : Nat}
    (h : atx? line = some (indent, level, after)) (rest : List (List Char)) :
    demoteLines offset none (line :: rest) =
      demotedAtx offset indent level after :: demoteLines offset none rest := by
  rw [demoteLines.eq_def]
  simp only [opening?_eq_none_of_atx? h, h]

theorem demoteLines_title {level : Nat} (hopen : Fence.opening? line = none)
    (hatx : atx? line = none) (hlevel : titleLevel? line (next :: rest) = some level) :
    demoteLines offset none (line :: next :: rest) =
      demotedTitle offset level line :: demoteLines offset none rest := by
  change (if isParagraph line then underline? next else none) = some level at hlevel
  simp only [demoteLines, hopen, hatx, hlevel]

theorem demoteLines_plain (hopen : Fence.opening? line = none) (hatx : atx? line = none)
    (hlevel : titleLevel? line rest = none) :
    demoteLines offset none (line :: rest) = line :: demoteLines offset none rest := by
  cases rest with
  | nil =>
      simp only [demoteLines, hopen, hatx]
  | cons next rest =>
      change (if isParagraph line then underline? next else none) = none at hlevel
      simp only [demoteLines, hopen, hatx, hlevel]

end Steps

/-! ## Lines after a pass -/

theorem demoteLines_ne_nil (offset : Nat) (fence : Option Fence) (h : lines ≠ []) :
    demoteLines offset fence lines ≠ [] := by
  cases passage fence lines with
  | done => exact absurd rfl h
  | fenced f line => simp [demoteLines_fenced]
  | opening hopen => simp [demoteLines_opening offset hopen]
  | heading hatx => simp [demoteLines_heading offset hatx]
  | title hopen hatx hlevel => simp [demoteLines_title offset hopen hatx hlevel]
  | plain hopen hatx hlevel => simp [demoteLines_plain offset hopen hatx hlevel]

theorem not_mem_demotedAtx {c : Char} {indent after : List Char} {level : Nat} (hc : c ≠ '#')
    (h : atx? line = some (indent, level, after)) (hline : c ∉ line) (offset : Nat) :
    c ∉ demotedAtx offset indent level after := by
  rw [(atx?_eq_some_iff.1 h).1] at hline
  simp_all [demotedAtx]

theorem not_mem_demotedTitle {c : Char} (hc : c ≠ '#') (hspace : c ≠ ' ') (hline : c ∉ line)
    (offset level : Nat) : c ∉ demotedTitle offset level line := by
  rcases exists_append_trim line with ⟨before, after, heq, -, -⟩
  have htrim : c ∉ trim line :=
    fun hc => hline (heq ▸ List.mem_append_left after (List.mem_append_right before hc))
  simp [demotedTitle, hc, hspace, htrim]

/-- Lines stay lines: no newline gets into them. -/
theorem not_mem_demoteLines (offset : Nat) (fence : Option Fence)
    (h : ∀ line ∈ lines, '\n' ∉ line) :
    ∀ line ∈ demoteLines offset fence lines, '\n' ∉ line := by
  induction passage fence lines with
  | done fence =>
      rw [demoteLines_nil]
      exact h
  | fenced f line _ ih =>
      rw [List.forall_mem_cons] at h
      rw [demoteLines_fenced, List.forall_mem_cons]
      exact ⟨h.1, ih h.2⟩
  | opening hopen _ ih =>
      rw [List.forall_mem_cons] at h
      rw [demoteLines_opening offset hopen, List.forall_mem_cons]
      exact ⟨h.1, ih h.2⟩
  | heading hatx _ ih =>
      rw [List.forall_mem_cons] at h
      rw [demoteLines_heading offset hatx, List.forall_mem_cons]
      exact ⟨not_mem_demotedAtx (by decide) hatx h.1 offset, ih h.2⟩
  | title hopen hatx hlevel _ ih =>
      rw [List.forall_mem_cons, List.forall_mem_cons] at h
      rw [demoteLines_title offset hopen hatx hlevel, List.forall_mem_cons]
      exact ⟨not_mem_demotedTitle (by decide) (by decide) h.1 offset _, ih h.2.2⟩
  | plain hopen hatx hlevel _ ih =>
      rw [List.forall_mem_cons] at h
      rw [demoteLines_plain offset hopen hatx hlevel, List.forall_mem_cons]
      exact ⟨h.1, ih h.2⟩

/-! ## Two passes -/

/-- A pass puts no underline below a line that had none there. -/
theorem titleLevel?_demoteLines (offset : Nat) (h : titleLevel? line rest = none) :
    titleLevel? line (demoteLines offset none rest) = none := by
  unfold titleLevel? at h ⊢
  split
  · next hparagraph =>
      rw [if_pos hparagraph] at h
      -- the next line stays as it is or becomes a heading line, which underlines nothing
      generalize hfence : (none : Option Fence) = fence
      cases passage fence rest with
      | done =>
          rw [demoteLines_nil]
          rfl
      | fenced => cases hfence
      | opening hopen =>
          rw [demoteLines_opening offset hopen]
          exact h
      | heading hatx =>
          rw [demoteLines_heading offset hatx]
          exact underline?_eq_none_of_atx? (atx?_demotedAtx hatx offset)
      | title hopen hatx hlevel =>
          rw [demoteLines_title offset hopen hatx hlevel]
          exact underline?_eq_none_of_atx? (atx?_demotedTitle (titleLevel?_pos hlevel) offset _)
      | plain hopen hatx hlevel =>
          rw [demoteLines_plain offset hopen hatx hlevel]
          exact h
  · rfl

theorem demoteLines_demoteLines (a b : Nat) (fence : Option Fence) (lines : List (List Char)) :
    demoteLines b fence (demoteLines a fence lines) = demoteLines (a + b) fence lines := by
  induction passage fence lines with
  | done fence =>
      rw [demoteLines_nil, demoteLines_nil, demoteLines_nil]
  | fenced f line _ ih =>
      rw [demoteLines_fenced, demoteLines_fenced, demoteLines_fenced, ih]
  | opening hopen _ ih =>
      rw [demoteLines_opening a hopen, demoteLines_opening b hopen,
        demoteLines_opening (a + b) hopen, ih]
  | heading hatx _ ih =>
      rw [demoteLines_heading a hatx, demoteLines_heading b (atx?_demotedAtx hatx a),
        demoteLines_heading (a + b) hatx, demotedAtx_demotedLevel, ih]
  | title hopen hatx hlevel _ ih =>
      -- the first pass takes the underline away, and the second one finds a heading line in place
      -- of the title
      have hheading := atx?_demotedTitle (titleLevel?_pos hlevel) a
      rw [demoteLines_title a hopen hatx hlevel, demoteLines_heading b (hheading _),
        demoteLines_title (a + b) hopen hatx hlevel, demotedAtx_title, ih]
  | plain hopen hatx hlevel _ ih =>
      rw [demoteLines_plain a hopen hatx hlevel, demoteLines_plain (a + b) hopen hatx hlevel,
        demoteLines_plain b hopen hatx (titleLevel?_demoteLines a hlevel), ih]

/-! ## Documents -/

theorem demoteHeadings_of_hasHeading {survey : Surveyor} {src : String}
    (h : (survey src).hasHeading = true) {top : Int} (htop : 1 < top) :
    demoteHeadings survey top src = ofLines (demoteLines (top - 1).toNat none (linesOf src)) := by
  have hoffset : ((top - 1).toNat == 0) = false := beq_eq_false_iff_ne.2 (by omega)
  rw [demoteHeadings, hoffset, h]
  rfl

theorem demoteHeadings_of_not_hasHeading {survey : Surveyor} {src : String}
    (h : (survey src).hasHeading = false) (top : Int) : demoteHeadings survey top src = src := by
  simp [demoteHeadings, h]

theorem demoteHeadings_of_le (survey : Surveyor) (src : String) {top : Int} (htop : top ≤ 1) :
    demoteHeadings survey top src = src := by
  have hoffset : (top - 1).toNat = 0 := by omega
  rw [demoteHeadings, hoffset]
  rfl

theorem linesOf_demoteLines (offset : Nat) (src : String) :
    linesOf (ofLines (demoteLines offset none (linesOf src))) =
      demoteLines offset none (linesOf src) :=
  linesOf_ofLines (demoteLines_ne_nil offset none (linesOf_ne_nil src))
    (not_mem_demoteLines offset none (not_mem_linesOf src))

/-- Moving the headings of a document down twice is moving them down once, if a document with
headings is still seen to have some behind the first move. -/
theorem demoteHeadings_demoteHeadings (survey : Surveyor) (src : String) {a b : Int} (ha : 1 ≤ a)
    (hb : 1 ≤ b)
    (hkept : (survey src).hasHeading = true →
      (survey (demoteHeadings survey a src)).hasHeading = true) :
    demoteHeadings survey b (demoteHeadings survey a src) =
      demoteHeadings survey (a + b - 1) src := by
  cases hheading : (survey src).hasHeading with
  | false =>
      rw [demoteHeadings_of_not_hasHeading hheading, demoteHeadings_of_not_hasHeading hheading,
        demoteHeadings_of_not_hasHeading hheading]
  | true =>
      have hstill := hkept hheading
      rcases Int.lt_or_eq_of_le ha with ha | rfl
      · rcases Int.lt_or_eq_of_le hb with hb | rfl
        · have hoffset : (a - 1).toNat + (b - 1).toNat = (a + b - 1 - 1).toNat := by omega
          rw [demoteHeadings_of_hasHeading hstill hb, demoteHeadings_of_hasHeading hheading ha,
            demoteHeadings_of_hasHeading hheading (by omega), linesOf_demoteLines,
            demoteLines_demoteLines, hoffset]
        · rw [demoteHeadings_of_le _ _ (Int.le_refl 1), Int.add_sub_cancel]
      · rw [demoteHeadings_of_le survey src (Int.le_refl 1), Int.add_comm, Int.add_sub_cancel]

/-- A document with an underlined title, a fenced block and a heading line. -/
def manual : String :=
  "Title\n===\n```sh\n# ls\n```\n## Use"

theorem demoteHeadings_demoteHeadings_manual :
    ((1 : Int) ≤ 2 ∧ (1 : Int) ≤ 3 ∧ (survey (demoteHeadings survey 2 manual)).hasHeading = true) ∧
    demoteHeadings survey 3 (demoteHeadings survey 2 manual) =
      demoteHeadings survey (2 + 3 - 1) manual := by
  have hkept : (survey (demoteHeadings survey 2 manual)).hasHeading = true := by
    decide +kernel
  exact ⟨⟨by decide, by decide, hkept⟩,
    demoteHeadings_demoteHeadings survey manual (by decide) (by decide) fun _ => hkept⟩

end Markdown
end ApiPages

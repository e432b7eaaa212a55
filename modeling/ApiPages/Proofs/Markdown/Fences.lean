import ApiPages.Proofs.Markdown.Framing

/-!
# Fenced blocks

The rule for fenced blocks, stated on its own: `Fence.IsOpener` and `Fence.IsCloser` say what opens
and closes a block, `Blocks` reads a document as lines outside blocks, closed blocks and perhaps a
last one that is never closed.

* `Blocks.unique` and `exists_blocks` say that every document has one reading;
* `edits_follow_blocks` compares it with the roles that the edits go by: they agree unless a line
  begins with code in backticks, or a line in a block holds its mark alone but further in than a
  closing line may stand.
-/

namespace ApiPages
namespace Markdown

open Text

variable {line : List Char} {rest lines : List (List Char)} {f : Fence} {found : List Role}

/-! ## The rule -/

/-- White space in front of other characters is made of spaces. -/
def IsSpaceIndented (line : List Char) : Prop :=
  (∃ c ∈ line, isBlank c = false) → ∀ c ∈ line.takeWhile isBlank, c = ' '

instance : DecidablePred IsSpaceIndented := fun line =>
  decidable_of_iff (line.any (!isBlank ·) = true → (line.takeWhile isBlank).all (· == ' ') = true)
    (by simp [IsSpaceIndented])

namespace Fence

/-- A line that opens a block: at most three spaces and at least three marks.  A line of backticks
holds no further ones. -/
def IsOpener (f : Fence) (line : List Char) : Prop :=
  ∃ indent rest, line = List.replicate indent ' ' ++ (List.replicate f.size f.mark ++ rest) ∧
    indent ≤ 3 ∧
    3 ≤ f.size ∧ (f.mark = '\x60' ∧ '\x60' ∉ rest ∨ f.mark = '~' ∧ rest.head? ≠ some '~')

/-- A line that closes a block: at most three spaces, at least as many marks, and only spaces
behind. -/
def IsCloser (f : Fence) (line : List Char) : Prop :=
  ∃ indent size trailing, line = List.replicate indent ' ' ++
    (List.replicate size f.mark ++ List.replicate trailing ' ') ∧ indent ≤ 3 ∧ f.size ≤ size

end Fence

/-- The fenced blocks of a document. -/
inductive Blocks : List (List Char) → List Role → Prop where
  | nil : Blocks [] []
  | outside {line : List Char} {rest : List (List Char)} {found : List Role} :
      (∀ f, ¬ Fence.IsOpener f line) → Blocks rest found → Blocks (line :: rest) (.outside :: found)
  | closed {f : Fence} {line last : List Char} {content rest : List (List Char)}
        {found : List Role} :
      f.IsOpener line → (∀ l ∈ content, ¬ f.IsCloser l) → f.IsCloser last → Blocks rest found →
        Blocks (line :: (content ++ last :: rest))
          (.opener f :: (content.map (fun _ => .content f) ++ .closer f :: found))
  | unclosed {f : Fence} {line : List Char} {content : List (List Char)} :
      f.IsOpener line → (∀ l ∈ content, ¬ f.IsCloser l) →
        Blocks (line :: content) (.opener f :: content.map (fun _ => .content f))

/-! ## Marks alone on a line -/

theorem isBlank_of_mem_replicate (n : Nat) : ∀ c ∈ List.replicate n ' ', isBlank c = true := by
  intro c hc
  rw [List.eq_of_mem_replicate hc]
  rfl

namespace Fence

/-- A mark that blocks are fenced with. -/
def IsMark (f : Fence) : Prop :=
  3 ≤ f.size ∧ (f.mark = '\x60' ∨ f.mark = '~')

theorem IsMark.not_blank (h : f.IsMark) : isBlank f.mark = false := by
  rcases h.2 with hmark | hmark <;> rw [hmark] <;> rfl

theorem IsOpener.isMark (h : f.IsOpener line) : f.IsMark := by
  rcases h with ⟨indent, rest, -, -, hsize, ⟨hmark, -⟩ | ⟨hmark, -⟩⟩
  · exact ⟨hsize, .inl hmark⟩
  · exact ⟨hsize, .inr hmark⟩

/-- A line that holds a mark alone closes a block, wherever the mark stands. -/
theorem closes_iff (hmark : f.IsMark) : f.closes line = true ↔ ∃ before size after,
    line = before ++ (List.replicate size f.mark ++ after) ∧ (∀ c ∈ before, isBlank c = true) ∧
      (∀ c ∈ after, isBlank c = true) ∧ f.size ≤ size := by
  constructor
  · intro h
    rcases Bool.and_eq_true_iff.1 h with ⟨hsize, hall⟩
    have hbody : trim line = List.replicate (trim line).length f.mark :=
      List.eq_replicate_iff.2 ⟨rfl, fun c hc => beq_iff_eq.1 (List.all_eq_true.1 hall c hc)⟩
    rcases exists_append_trim line with ⟨before, after, hline, hbefore, hafter⟩
    rw [hbody, List.append_assoc] at hline
    exact ⟨before, _, after, hline, hbefore, hafter, of_decide_eq_true hsize⟩
  · rintro ⟨before, size, after, rfl, hbefore, hafter, hsize⟩
    have hbody : trim (before ++ (List.replicate size f.mark ++ after)) =
        List.replicate size f.mark := by
      rw [trim_append_left hbefore, trim_append_blanks hafter]
      refine trim_eq_self (fun c hc => ?_) (fun c hc => ?_)
      · rw [List.eq_of_mem_replicate (List.mem_of_head? hc)]
        exact hmark.not_blank
      · rw [List.eq_of_mem_replicate (List.mem_of_getLast? hc)]
        exact hmark.not_blank
    rw [closes, hbody, List.length_replicate, decide_eq_true hsize]
    simp

theorem closes_of_isCloser (hmark : f.IsMark) (h : f.IsCloser line) : f.closes line = true := by
  rcases h with ⟨indent, size, trailing, hline, -, hsize⟩
  exact (closes_iff hmark).2
    ⟨_, size, _, hline, isBlank_of_mem_replicate indent, isBlank_of_mem_replicate trailing, hsize⟩

theorem not_isCloser_of_closes (hmark : f.IsMark) (h : f.closes line = false) :
    ¬ f.IsCloser line := by
  intro hclose
  rw [closes_of_isCloser hmark hclose] at h
  cases h

theorem not_isCloser_of_indent (hmark : f.IsMark) (h : 3 < (line.takeWhile (· == ' ')).length) :
    ¬ f.IsCloser line := by
  rintro ⟨indent, size, trailing, rfl, hindent, hsize⟩
  have hpos : 1 ≤ size := Nat.le_trans (by decide) (Nat.le_trans hmark.1 hsize)
  have hends : ∀ c ∈ (List.replicate size f.mark ++ List.replicate trailing ' ').head?,
      c ≠ ' ' := by
    rintro c hc rfl
    rw [head?_replicate_append hpos, Option.mem_def, Option.some.injEq] at hc
    have hblank := hmark.not_blank
    rw [hc] at hblank
    cases hblank
  rw [takeWhile_replicate_append indent hends, List.length_replicate] at h
  omega

end Fence

/-! ## Lines that are misread -/

namespace Fence

/-- Three or more backticks with a further one behind them: code within a line. -/
def IsInlineCode (line : List Char) : Prop :=
  ∃ indent size after, line = List.replicate indent ' ' ++ (List.replicate size '\x60' ++ after) ∧
    indent ≤ 3 ∧
    3 ≤ size ∧ after.head? ≠ some '\x60' ∧ '\x60' ∈ after

/-- The mark of a block alone on a line, but behind four or more spaces or in front of other white
space. -/
def IsStrayMark (f : Fence) (line : List Char) : Prop :=
  ∃ indent size after, line = List.replicate indent ' ' ++ (List.replicate size f.mark ++ after) ∧
    f.size ≤ size ∧ (∀ c ∈ after, isBlank c = true) ∧ (3 < indent ∨ ∃ c ∈ after, c ≠ ' ')

end Fence

theorem isIndent_replicate {n : Nat} (h : n ≤ 3) : IsIndent (List.replicate n ' ') := by
  refine ⟨fun c hc => ?_, by rwa [List.length_replicate]⟩
  rw [List.eq_of_mem_replicate hc]
  rfl

/-- In front of a mark there are only spaces. -/
theorem eq_replicate_of_isSpaceIndented {before after : List Char} {size : Nat} {mark : Char}
    (h : IsSpaceIndented (before ++ (List.replicate size mark ++ after))) (hsize : 1 ≤ size)
    (hbefore : ∀ c ∈ before, isBlank c = true) (hmark : isBlank mark = false) :
    before = List.replicate before.length ' ' := by
  have hmem : mark ∈ before ++ (List.replicate size mark ++ after) := by
    have hpos : size ≠ 0 := Nat.one_le_iff_ne_zero.1 hsize
    simp [hpos]
  have hends : ∀ c ∈ (List.replicate size mark ++ after).head?, isBlank c = false := by
    intro c hc
    rw [head?_replicate_append hsize] at hc
    cases hc
    exact hmark
  refine List.eq_replicate_iff.2 ⟨rfl, fun c hc => h ⟨mark, hmem, hmark⟩ c ?_⟩
  rwa [takeWhile_run hbefore hends]

namespace Fence

theorem opening?_of_isOpener (h : f.IsOpener line) : ∃ o, opening? line = some o ∧ o.fence = f := by
  have hmark := h.isMark
  rcases h with ⟨indent, rest, rfl, hindent, hsize, hrest⟩
  have hends : ∀ c ∈ rest.head?, c ≠ f.mark := by
    rintro c hc rfl
    rcases hrest with ⟨htick, hrest⟩ | ⟨htilde, hrest⟩
    · exact hrest (htick ▸ List.mem_of_head? hc)
    · exact hrest (htilde ▸ hc)
  have hopening := isOpening_append (isIndent_replicate hindent) hmark.2 hsize hends
  exact ⟨_, opening?_eq_some_iff.2 ⟨_, _, hopening⟩, rfl⟩

theorem not_isOpener (h : opening? line = none) (f : Fence) : ¬ f.IsOpener line := by
  intro hopen
  rcases opening?_of_isOpener hopen with ⟨o, ho, -⟩
  rw [h] at ho
  cases ho

/-- A line of backticks that opens a block holds no others. -/
theorem not_isOpener_of_count {o : Opening} (h : opening? line = some o)
    (htick : o.fence.mark = '\x60') (hcount : line.count '\x60' ≠ o.fence.size) (f : Fence) :
    ¬ f.IsOpener line := by
  intro hopen
  rcases opening?_of_isOpener hopen with ⟨o', ho', rfl⟩
  cases h.symm.trans ho'
  rcases hopen with ⟨indent, rest, rfl, -, -, ⟨-, hrest⟩ | ⟨htilde, -⟩⟩
  · rw [htick, List.count_append, List.count_append, List.count_replicate_self,
      List.count_eq_zero_of_not_mem hrest] at hcount
    simp [List.count_replicate] at hcount
  · rw [htilde] at htick
    cases htick

/-- A line that opens no block is taken for one that does exactly if it begins with code. -/
theorem opening?_iff_isInlineCode (hspaces : IsSpaceIndented line) (h : ∀ f, ¬ IsOpener f line) :
    (∃ o, opening? line = some o) ↔ IsInlineCode line := by
  constructor
  · rintro ⟨o, ho⟩
    rcases opening?_eq_some_iff.1 ho with ⟨indent, gap, ho⟩
    have hmark : IsMark o.fence := ⟨ho.size, ho.mark⟩
    have hline := ho.line_eq
    have hends : (gap ++ (o.word ++ o.rest)).head? ≠ some o.fence.mark :=
      fun hhead => ho.mark_ends _ hhead rfl
    have hindent : indent = List.replicate indent.length ' ' :=
      eq_replicate_of_isSpaceIndented (hline ▸ hspaces) (Nat.le_trans (by decide) ho.size)
        (fun c hc => isBlank_of_isSpace (ho.indented.space c hc)) hmark.not_blank
    rw [hindent] at hline
    rcases ho.mark with htick | htilde
    · rw [htick] at hline hends
      by_cases hcode : '\x60' ∈ gap ++ (o.word ++ o.rest)
      · exact ⟨_, _, _, hline, ho.indented.short, ho.size, hends, hcode⟩
      · exact absurd ⟨_, _, hline, ho.indented.short, ho.size, .inl ⟨rfl, hcode⟩⟩
          (h ⟨'\x60', o.fence.size⟩)
    · rw [htilde] at hline hends
      exact absurd ⟨_, _, hline, ho.indented.short, ho.size, .inr ⟨rfl, hends⟩⟩
        (h ⟨'~', o.fence.size⟩)
  · rintro ⟨indent, size, after, rfl, hindent, hsize, hends, -⟩
    have hmark : ∀ c ∈ after.head?, c ≠ (⟨'\x60', size⟩ : Fence).mark := by
      rintro c hc rfl
      exact hends hc
    have hopening := isOpening_append (isIndent_replicate hindent) (.inl rfl) hsize hmark
    exact ⟨_, opening?_eq_some_iff.2 ⟨_, _, hopening⟩⟩

/-- A line that closes no block is taken for one that does exactly if the mark strays. -/
theorem closes_iff_isStrayMark (hmark : f.IsMark) (hspaces : IsSpaceIndented line)
    (h : ¬ f.IsCloser line) :
    f.closes line = true ↔ f.IsStrayMark line := by
  rw [closes_iff hmark]
  constructor
  · rintro ⟨before, size, after, rfl, hbefore, hafter, hsize⟩
    have hpos : 1 ≤ size := Nat.le_trans (by decide) (Nat.le_trans hmark.1 hsize)
    have hindent := eq_replicate_of_isSpaceIndented hspaces hpos hbefore hmark.not_blank
    refine ⟨before.length, size, after, by rw [← hindent], hsize, hafter, ?_⟩
    by_contra hplain
    rw [not_or, Nat.not_lt] at hplain
    have htrailing : after = List.replicate after.length ' ' :=
      List.eq_replicate_iff.2 ⟨rfl, fun c hc => by_contra fun hne => hplain.2 ⟨c, hc, hne⟩⟩
    exact h ⟨before.length, size, after.length, by rw [← hindent, ← htrailing], hplain.1, hsize⟩
  · rintro ⟨indent, size, after, rfl, hsize, hafter, -⟩
    exact ⟨_, size, after, rfl, isBlank_of_mem_replicate indent, hafter, hsize⟩

end Fence

/-- A line that the edits take for something else than it is. -/
def IsMisread (line : List Char) : Role → Prop
  | .outside => Fence.IsInlineCode line
  | .content f => f.IsStrayMark line
  | _ => False

/-- No line of a document with the given reading is misread. -/
def IsPlain (lines : List (List Char)) (found : List Role) : Prop :=
  List.Forall₂ (fun line role => ¬ IsMisread line role) lines found

/-! ## Reading line by line -/

/-- The rule line by line, in a block or outside blocks. -/
inductive Reading : Option Fence → List (List Char) → List Role → Prop where
  | nil (fence : Option Fence) : Reading fence [] []
  | outside {line : List Char} {rest : List (List Char)} {found : List Role} :
      (∀ f, ¬ Fence.IsOpener f line) → Reading none rest found →
        Reading none (line :: rest) (.outside :: found)
  | opener {f : Fence} {line : List Char} {rest : List (List Char)} {found : List Role} :
      f.IsOpener line → Reading (some f) rest found →
        Reading none (line :: rest) (.opener f :: found)
  | content {f : Fence} {line : List Char} {rest : List (List Char)} {found : List Role} :
      ¬ f.IsCloser line → Reading (some f) rest found →
        Reading (some f) (line :: rest) (.content f :: found)
  | closer {f : Fence} {line : List Char} {rest : List (List Char)} {found : List Role} :
      f.IsCloser line → Reading none rest found →
        Reading (some f) (line :: rest) (.closer f :: found)

theorem Reading.append_content {content : List (List Char)}
    (hcontent : ∀ l ∈ content, ¬ f.IsCloser l) (h : Reading (some f) rest found) :
    Reading (some f) (content ++ rest) (content.map (fun _ => .content f) ++ found) := by
  induction content with
  | nil =>
      exact h
  | cons line content ih =>
      rw [List.forall_mem_cons] at hcontent
      exact .content hcontent.1 (ih hcontent.2)

theorem Blocks.reading (h : Blocks lines found) : Reading none lines found := by
  induction h with
  | nil =>
      exact .nil none
  | outside hline _ ih =>
      exact .outside hline ih
  | closed hline hcontent hlast _ ih =>
      exact .opener hline (Reading.append_content hcontent (.closer hlast ih))
  | @unclosed f line content hline hcontent =>
      have hreading := Reading.append_content hcontent (.nil (some f))
      rw [List.append_nil, List.append_nil] at hreading
      exact .opener hline hreading

theorem isOpener_unique {g : Fence} (h : f.IsOpener line) (h' : g.IsOpener line) : f = g := by
  rcases Fence.opening?_of_isOpener h with ⟨o, ho, rfl⟩
  rcases Fence.opening?_of_isOpener h' with ⟨o', ho', rfl⟩
  cases ho.symm.trans ho'
  rfl

theorem Reading.unique {fence : Option Fence} {other : List Role} (h : Reading fence lines found)
    (h' : Reading fence lines other) : found = other := by
  induction h generalizing other with
  | nil =>
      cases h'
      rfl
  | outside hline _ ih =>
      cases h' with
      | outside _ hrest => rw [ih hrest]
      | opener hopen _ => exact absurd hopen (hline _)
  | opener hline _ ih =>
      cases h' with
      | outside hnone _ => exact absurd hline (hnone _)
      | opener hopen hrest =>
          cases isOpener_unique hline hopen
          rw [ih hrest]
  | content hline _ ih =>
      cases h' with
      | content _ hrest => rw [ih hrest]
      | closer hclose _ => exact absurd hclose hline
  | closer hline _ ih =>
      cases h' with
      | content hopen _ => exact absurd hline hopen
      | closer _ hrest => rw [ih hrest]

theorem Blocks.unique {other : List Role} (h : Blocks lines found) (h' : Blocks lines other) :
    found = other :=
  h.reading.unique h'.reading

/-- The lines of a block up to the first one that closes it, if any does. -/
theorem exists_content (f : Fence) (lines : List (List Char)) : (∀ l ∈ lines, ¬ f.IsCloser l) ∨
    ∃ content last rest, lines = content ++ last :: rest ∧ (∀ l ∈ content, ¬ f.IsCloser l) ∧
      f.IsCloser last := by
  induction lines with
  | nil =>
      exact .inl (by simp)
  | cons line lines ih =>
      by_cases hline : f.IsCloser line
      · exact .inr ⟨[], line, lines, rfl, by simp, hline⟩
      · rcases ih with hnone | ⟨content, last, rest, rfl, hcontent, hlast⟩
        · exact .inl (List.forall_mem_cons.2 ⟨hline, hnone⟩)
        · exact .inr
            ⟨line :: content, last, rest, rfl, List.forall_mem_cons.2 ⟨hline, hcontent⟩, hlast⟩

theorem exists_blocks (lines : List (List Char)) : ∃ found, Blocks lines found := by
  -- on the number of lines, because a closed block takes any number of them at once
  induction h : lines.length using Nat.strongRecOn generalizing lines with
  | ind n ih =>
      cases lines with
      | nil =>
          exact ⟨[], .nil⟩
      | cons line lines =>
          rw [List.length_cons] at h
          by_cases hopen : ∃ f, Fence.IsOpener f line
          · rcases hopen with ⟨f, hopen⟩
            rcases exists_content f lines with hnone | ⟨content, last, rest, rfl, hcontent, hlast⟩
            · exact ⟨_, .unclosed hopen hnone⟩
            · rw [List.length_append, List.length_cons] at h
              rcases ih rest.length (by omega) rest rfl with ⟨found, hfound⟩
              exact ⟨_, .closed hopen hcontent hlast hfound⟩
          · rcases ih lines.length (by omega) lines rfl with ⟨found, hfound⟩
            exact ⟨_, .outside (fun f hf => hopen ⟨f, hf⟩) hfound⟩

/-! ## The roles that the edits go by -/

/-- The edits read the lines as the rule does unless one of them is misread. -/
theorem Reading.roles_eq_iff {fence : Option Fence} (h : Reading fence lines found)
    (hfence : ∀ f ∈ fence, Fence.IsMark f) (hspaces : ∀ line ∈ lines, IsSpaceIndented line) :
    roles fence lines = found ↔ IsPlain lines found := by
  unfold IsPlain
  induction h with
  | nil =>
      simp [roles]
  | @outside line rest found hline _ ih =>
      rw [List.forall_mem_cons] at hspaces
      have hcode := Fence.opening?_iff_isInlineCode hspaces.1 hline
      rw [roles, List.forall₂_cons, ← ih (by simp) hspaces.2]
      cases hopen : Fence.opening? line with
      | none =>
          have hplain : ¬ Fence.IsInlineCode line := by
            rw [← hcode, hopen]
            simp
          rw [roleIn_outside hopen]
          simp [IsMisread, hplain, Role.fence?]
      | some o =>
          have hread : Fence.IsInlineCode line := hcode.1 ⟨o, hopen⟩
          -- the line is misread: the first role differs already
          rw [roleIn_opening hopen]
          simp [IsMisread, hread]
  | @opener f line rest found hline _ ih =>
      rw [List.forall_mem_cons] at hspaces
      rcases Fence.opening?_of_isOpener hline with ⟨o, ho, rfl⟩
      rw [roles, List.forall₂_cons, ← ih (by simpa using hline.isMark) hspaces.2, roleIn_opening ho]
      simp [IsMisread, Role.fence?]
  | @content f line rest found hline _ ih =>
      rw [List.forall_mem_cons] at hspaces
      have hstray := Fence.closes_iff_isStrayMark (hfence f rfl) hspaces.1 hline
      rw [roles, List.forall₂_cons, ← ih hfence hspaces.2, roleIn]
      by_cases hcloses : f.closes line = true
      · rw [if_pos hcloses]
        simp [IsMisread, hstray.1 hcloses]
      · have hplain : ¬ f.IsStrayMark line := fun h => hcloses (hstray.2 h)
        rw [if_neg hcloses]
        simp [IsMisread, hplain, Role.fence?]
  | @closer f line rest found hline _ ih =>
      rw [List.forall_mem_cons] at hspaces
      have hcloses := Fence.closes_of_isCloser (hfence f rfl) hline
      rw [roles, List.forall₂_cons, ← ih (by simp) hspaces.2, roleIn, if_pos hcloses]
      simp [IsMisread, Role.fence?]

/-- Both edits of a document go by the roles of its lines, and every document has exactly one
reading by the rule for fenced blocks.  The roles are those of the reading exactly if no line is
misread: outside blocks none begins with code in backticks, and inside a block none holds its mark
alone behind more than three spaces or in front of white space other than spaces.  Then the edits
pass over exactly what belongs to blocks. -/
theorem edits_follow_blocks (survey : Surveyor) (top : Int) (src : String)
    (hspaces : ∀ line ∈ linesOf src, IsSpaceIndented line) :
    demoteHeadings survey top src = demotedBy survey top src (roles none (linesOf src)) ∧
    frameShellBlocks survey src = framedBy survey src (roles none (linesOf src)) ∧
    ∃ found, Blocks (linesOf src) found ∧ (∀ other, Blocks (linesOf src) other → other = found) ∧
      (roles none (linesOf src) = found ↔ IsPlain (linesOf src) found) ∧
      (IsPlain (linesOf src) found →
        demoteHeadings survey top src = demotedBy survey top src found ∧
        frameShellBlocks survey src = framedBy survey src found) := by
  rcases exists_blocks (linesOf src) with ⟨found, hfound⟩
  have hagree : roles none (linesOf src) = found ↔ IsPlain (linesOf src) found :=
    hfound.reading.roles_eq_iff (by simp) hspaces
  have hdemoted := demoteHeadings_eq_demotedBy survey top src
  have hframed := frameShellBlocks_eq_framedBy survey src
  refine ⟨hdemoted, hframed, found, hfound, fun other hother => hother.unique hfound, hagree,
    fun hplain => ?_⟩
  rw [hagree.2 hplain] at hdemoted hframed
  exact ⟨hdemoted, hframed⟩

/-- Three backticks. -/
def ticks : Fence :=
  { mark := '\x60', size := 3 }

theorem isMark_ticks : ticks.IsMark :=
  ⟨by decide, .inl rfl⟩

theorem isOpener_ticks (info : List Char) (h : '\x60' ∉ info) :
    ticks.IsOpener ('\x60' :: '\x60' :: '\x60' :: info) :=
  ⟨0, info, rfl, by decide, by decide, .inl ⟨rfl, h⟩⟩

theorem isCloser_ticks : ticks.IsCloser ['\x60', '\x60', '\x60'] :=
  ⟨0, 3, 0, rfl, by decide, by decide⟩

theorem edits_follow_blocks_manual :
    (∀ line ∈ linesOf manual, IsSpaceIndented line) ∧
    Blocks (linesOf manual)
      [.outside, .outside, .opener ticks, .content ticks, .closer ticks, .outside] ∧
    roles none (linesOf manual) =
      [.outside, .outside, .opener ticks, .content ticks, .closer ticks, .outside] ∧
    IsPlain (linesOf manual)
      [.outside, .outside, .opener ticks, .content ticks, .closer ticks, .outside] := by
  have hspaces : ∀ line ∈ linesOf manual, IsSpaceIndented line := by decide +kernel
  have hroles : roles none (linesOf manual) =
      [.outside, .outside, .opener ticks, .content ticks, .closer ticks, .outside] := by
    decide +kernel
  have hlines : linesOf manual =
    ["Title".toList, "===".toList, "```sh".toList, "# ls".toList, "```".toList,
      "## Use".toList] := by
    decide +kernel
  have hcontent : ∀ l ∈ ["# ls".toList], ¬ ticks.IsCloser l := by
    rw [List.forall_mem_singleton]
    exact Fence.not_isCloser_of_closes isMark_ticks (by decide)
  have hblocks : Blocks (linesOf manual)
      [.outside, .outside, .opener ticks, .content ticks, .closer ticks, .outside] := by
    rw [hlines]
    exact .outside (Fence.not_isOpener (by decide)) (.outside (Fence.not_isOpener (by decide))
      (.closed (isOpener_ticks "sh".toList (by decide)) hcontent isCloser_ticks
        (.outside (Fence.not_isOpener (by decide)) .nil)))
  rcases edits_follow_blocks survey 2 manual hspaces with ⟨-, -, found, -, hunique, hagree, -⟩
  cases hunique _ hblocks
  exact ⟨hspaces, hblocks, hroles, hagree.1 hroles⟩

/-- A block that holds its own mark, four spaces in. -/
def markWithin : String :=
  "# A\n\n```\n    ```\n# x\n```"

/-- A line that begins with code, above a heading. -/
def codeInFront : String :=
  "# A\n\n```a``` b\n\n# H"

/-- A line of a block is rewritten, and a heading outside blocks is passed over. -/
theorem blocks_misread :
    ((∀ line ∈ linesOf markWithin, IsSpaceIndented line) ∧
      Blocks (linesOf markWithin)
        [.outside, .outside, .opener ticks, .content ticks, .content ticks, .closer ticks] ∧
      roles none (linesOf markWithin) =
        [.outside, .outside, .opener ticks, .closer ticks, .outside, .opener ticks] ∧
      demoteHeadings survey 2 markWithin = "## A\n\n```\n    ```\n## x\n```") ∧
    (∀ line ∈ linesOf codeInFront, IsSpaceIndented line) ∧
      Blocks (linesOf codeInFront) [.outside, .outside, .outside, .outside, .outside] ∧
      roles none (linesOf codeInFront) =
        [.outside, .outside, .opener ticks, .content ticks, .content ticks] ∧
      demoteHeadings survey 2 codeInFront = "## A\n\n```a``` b\n\n# H" := by
  have hwithin : linesOf markWithin =
    ["# A".toList, [], "```".toList, "    ```".toList, "# x".toList,
      "```".toList] := by
    decide +kernel
  have hfront : linesOf codeInFront = ["# A".toList, [], "```a``` b".toList, [], "# H".toList] := by
    decide +kernel
  have hcontent : ∀ l ∈ ["    ```".toList, "# x".toList], ¬ ticks.IsCloser l := by
    rw [List.forall_mem_cons, List.forall_mem_singleton]
    exact ⟨Fence.not_isCloser_of_indent isMark_ticks (by decide),
      Fence.not_isCloser_of_closes isMark_ticks (by decide)⟩
  have hcode : ∀ f : Fence, ¬ f.IsOpener "```a``` b".toList :=
    Fence.not_isOpener_of_count (o := { fence := ticks, word := ['a'], rest := "``` b".toList })
      (by decide) rfl (by decide)
  refine ⟨⟨by decide +kernel, ?_, by decide +kernel, by decide +kernel⟩, by decide +kernel, ?_,
    by decide +kernel, by decide +kernel⟩
  · rw [hwithin]
    exact .outside (Fence.not_isOpener (by decide)) (.outside (Fence.not_isOpener (by decide))
      (.closed (isOpener_ticks [] (by decide)) hcontent isCloser_ticks .nil))
  · rw [hfront]
    exact .outside (Fence.not_isOpener (by decide)) (.outside (Fence.not_isOpener (by decide))
      (.outside hcode (.outside (Fence.not_isOpener (by decide))
        (.outside (Fence.not_isOpener (by decide)) .nil))))

end Markdown
end ApiPages

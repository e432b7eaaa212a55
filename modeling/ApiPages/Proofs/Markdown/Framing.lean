import ApiPages.Proofs.Markdown.Roles

/-!
# Framing shell blocks

A line that opens a shell block opens the same block when its frame is taken away, and then says
something about frames.

* `frameLines_frameLines` and `frameLines_demoteLines` say that a second pass changes nothing, and
  that framing and moving headings commute;
* `frameShellBlocks_settled` says so of documents, with what a pass changes at all.
-/

namespace ApiPages
namespace Markdown

open Text

variable {line next : List Char} {rest lines : List (List Char)} {fence : Option Fence}
  {o : Fence.Opening}

/-! ## Framed lines -/

/-- A space or a tab. -/
def isTrailing (c : Char) : Bool :=
  c == ' ' || c == '\t'

theorem isTrailing_of_isWordChar {c : Char} (h : Fence.isWordChar c = true) :
    isTrailing c = false := by
  refine Bool.eq_false_iff.2 fun htrailing => ?_
  rcases Bool.or_eq_true_iff.1 htrailing with hspace | htab
  · rw [beq_iff_eq.1 hspace] at h
    cases h
  · rw [beq_iff_eq.1 htab] at h
    cases h

theorem head?_trimEnd_append {p : Char → Bool} (cs : List Char) {c d : Char} (back : List Char)
    (h : d ∈ (trimEnd p cs ++ c :: back).head?) : d = c ∨ d ∈ cs.head? := by
  rcases trimEnd_starts p cs with ⟨tail, hcs⟩
  cases htrim : trimEnd p cs with
  | nil =>
      rw [htrim] at h
      cases h
      exact .inl rfl
  | cons first more =>
      rw [htrim] at h hcs
      rw [← hcs]
      exact .inr h

theorem opening?_framedOpening (h : Fence.opening? line = some o) (hword : o.word ≠ []) :
    Fence.opening? (framedOpening line) =
      some { o with rest := trimEnd isTrailing o.rest ++ " frame=\"none\"".toList } := by
  rcases Fence.opening?_eq_some_iff.1 h with ⟨indent, gap, h⟩
  have hends : ∀ c ∈ (trimEnd isTrailing o.rest ++ " frame=\"none\"".toList).head?,
      Fence.isWordChar c = false := by
    intro c hc
    rcases head?_trimEnd_append o.rest _ hc with rfl | hrest
    · rfl
    · exact h.word_ends c hrest
  -- the word ends in no blank, so that blanks are taken from what stands behind it only
  have hfront : ∀ c ∈
    (indent ++ (List.replicate o.fence.size o.fence.mark ++ (gap ++ o.word))).getLast?,
      isTrailing c = false := by
    intro c hc
    rw [List.getLast?_append_of_ne_nil _ (by simp [hword]),
      List.getLast?_append_of_ne_nil _ (by simp [hword]), List.getLast?_append_of_ne_nil _ hword]
        at hc
    exact isTrailing_of_isWordChar (h.word_chars c (List.mem_of_getLast? hc))
  have hline : line = indent ++ (List.replicate o.fence.size o.fence.mark ++ (gap ++ o.word)) ++
      o.rest := by
    simpa using h.line_eq
  refine Fence.opening?_eq_some_iff.2 ⟨indent, gap,
    { line_eq := ?_
      indented := h.indented
      mark := h.mark
      size := h.size
      mark_ends := ?_
      gap_space := h.gap_space
      gap_ends := ?_
      word_chars := h.word_chars
      word_ends := hends }⟩
  · rw [framedOpening, hline]
    change trimEnd isTrailing _ ++ _ = _
    rw [trimEnd_append hfront]
    simp
  · have hne : gap ++ o.word ≠ [] := by simp [hword]
    rw [← List.append_assoc, List.head?_append_of_ne_nil _ hne]
    have hmark := h.mark_ends
    rwa [← List.append_assoc, List.head?_append_of_ne_nil _ hne] at hmark
  · rw [List.head?_append_of_ne_nil _ hword]
    have hgap := h.gap_ends
    rwa [List.head?_append_of_ne_nil _ hword] at hgap

/-- No shell has an empty name. -/
theorem word_ne_nil (h : shellNames.contains (String.ofList o.word) = true) : o.word ≠ [] := by
  intro hword
  rw [hword] at h
  revert h
  decide

theorem occurs_frame (front : List Char) :
    occurs "frame=".toList (front ++ " frame=\"none\"".toList) = true := by
  have hparts : front ++ " frame=\"none\"".toList =
      front ++ [' '] ++ "frame=".toList ++ "\"none\"".toList := by
    simp
  rw [hparts]
  exact occurs_append "frame=".toList (front ++ [' ']) "\"none\"".toList

/-- A framed line opens the same block, and has no frame left to take away. -/
theorem opening?_framed (h : Fence.opening? line = some o) :
    ∃ o', Fence.opening? (framed o line) = some o' ∧
    o'.fence = o.fence ∧ framed o' (framed o line) = framed o line := by
  unfold framed
  split
  · next hframe =>
      rcases Bool.and_eq_true_iff.1 hframe with ⟨hshell, -⟩
      refine ⟨_, opening?_framedOpening h (word_ne_nil hshell), rfl, ?_⟩
      rw [occurs_frame, Bool.not_true, Bool.and_false]
      rfl
  · next hframe =>
      exact ⟨o, h, rfl, if_neg hframe⟩

/-! ## Two passes -/

theorem frameLines_frameLines (fence : Option Fence) (lines : List (List Char)) :
    frameLines fence (frameLines fence lines) = frameLines fence lines := by
  induction lines generalizing fence with
  | nil =>
      rfl
  | cons line rest ih =>
      cases fence with
      | some f =>
          rw [frameLines_fenced, frameLines_fenced, ih]
      | none =>
          cases hopen : Fence.opening? line with
          | some o =>
              rcases opening?_framed hopen with ⟨o', hopen', hfence, hagain⟩
              rw [frameLines_opening hopen, frameLines_opening hopen', hagain, hfence, ih]
          | none =>
              rw [frameLines_outside hopen, frameLines_outside hopen, ih]

/-- Framing a line makes no underline of it, and spoils none. -/
theorem titleLevel?_frameLines (line : List Char) (lines : List (List Char)) :
    titleLevel? line (frameLines none lines) = titleLevel? line lines := by
  cases lines with
  | nil =>
      rw [frameLines]
  | cons next rest =>
      cases hopen : Fence.opening? next with
      | some o =>
          rcases opening?_framed hopen with ⟨o', hopen', -, -⟩
          rw [frameLines_opening hopen, titleLevel?, titleLevel?, List.head?_cons, List.head?_cons,
            Option.bind_some, Option.bind_some, underline?_eq_none_of_opening? hopen,
            underline?_eq_none_of_opening? hopen']
      | none =>
          rw [frameLines_outside hopen]
          rfl

theorem frameLines_demoteLines (offset : Nat) (fence : Option Fence) (lines : List (List Char)) :
    frameLines fence (demoteLines offset fence lines) =
      demoteLines offset fence (frameLines fence lines) := by
  induction passage fence lines with
  | done fence =>
      rw [demoteLines_nil, frameLines, demoteLines_nil]
  | fenced f line _ ih =>
      rw [demoteLines_fenced, frameLines_fenced, frameLines_fenced, demoteLines_fenced, ih]
  | opening hopen _ ih =>
      rcases opening?_framed hopen with ⟨o', hopen', hfence, -⟩
      rw [demoteLines_opening offset hopen, frameLines_opening hopen, frameLines_opening hopen,
        demoteLines_opening offset hopen', hfence, ih]
  | heading hatx _ ih =>
      have hatx' := atx?_demotedAtx hatx offset
      rw [demoteLines_heading offset hatx, frameLines_outside (opening?_eq_none_of_atx? hatx'),
        frameLines_outside (opening?_eq_none_of_atx? hatx), demoteLines_heading offset hatx, ih]
  | @title line next level rest hopen hatx hlevel _ ih =>
      have hnext := opening?_eq_none_of_titleLevel? hlevel
      -- framing passes over the title and its underline, and over the heading line that comes of
      -- them
      have hatx' := atx?_demotedTitle (titleLevel?_pos hlevel) offset line
      have hlevel' : titleLevel? line (next :: frameLines none rest) = some level := hlevel
      rw [demoteLines_title offset hopen hatx hlevel,
        frameLines_outside (opening?_eq_none_of_atx? hatx'), frameLines_outside hopen,
        frameLines_outside hnext, demoteLines_title offset hopen hatx hlevel', ih]
  | plain hopen hatx hlevel _ ih =>
      rw [demoteLines_plain offset hopen hatx hlevel, frameLines_outside hopen,
        frameLines_outside hopen,
        demoteLines_plain offset hopen hatx (by rwa [titleLevel?_frameLines]), ih]

/-! ## Documents -/

theorem frameShellBlocks_of_hasShellFence {survey : Surveyor} {src : String}
    (h : (survey src).hasShellFence = true) :
    frameShellBlocks survey src = ofLines (frameLines none (linesOf src)) := by
  rw [frameShellBlocks, if_pos h]
  rfl

theorem frameShellBlocks_of_not_hasShellFence {survey : Surveyor} {src : String}
    (h : (survey src).hasShellFence = false) : frameShellBlocks survey src = src := by
  rw [frameShellBlocks, h]
  rfl

theorem length_frameLines (fence : Option Fence) (lines : List (List Char)) :
    (frameLines fence lines).length = lines.length := by
  rw [frameLines_eq, List.length_zipWith, length_roles, Nat.min_self]

theorem not_mem_framed {c : Char} (h : c ∉ line) (hframe : c ∉ " frame=\"none\"".toList)
    (o : Fence.Opening) :
    c ∉ framed o line := by
  unfold framed
  split
  · rw [framedOpening, List.mem_append, not_or]
    exact ⟨fun hc => h ((trimEnd_starts _ line).subset hc), hframe⟩
  · exact h

/-- Lines stay lines: no newline gets into them. -/
theorem not_mem_frameLines (fence : Option Fence) (h : ∀ line ∈ lines, '\n' ∉ line) :
    ∀ line ∈ frameLines fence lines, '\n' ∉ line := by
  induction lines generalizing fence with
  | nil =>
      exact h
  | cons line rest ih =>
      rw [List.forall_mem_cons] at h
      cases fence with
      | some f =>
          rw [frameLines_fenced, List.forall_mem_cons]
          exact ⟨h.1, ih _ h.2⟩
      | none =>
          cases hopen : Fence.opening? line with
          | some o =>
              rw [frameLines_opening hopen, List.forall_mem_cons]
              exact ⟨not_mem_framed h.1 (by decide) o, ih _ h.2⟩
          | none =>
              rw [frameLines_outside hopen, List.forall_mem_cons]
              exact ⟨h.1, ih _ h.2⟩

theorem linesOf_frameLines (src : String) :
    linesOf (ofLines (frameLines none (linesOf src))) = frameLines none (linesOf src) := by
  refine linesOf_ofLines ?_ (not_mem_frameLines none (not_mem_linesOf src))
  rw [← List.length_pos_iff_ne_nil, length_frameLines, List.length_pos_iff_ne_nil]
  exact linesOf_ne_nil src

theorem frameShellBlocks_frameShellBlocks (survey : Surveyor) (src : String) :
    frameShellBlocks survey (frameShellBlocks survey src) = frameShellBlocks survey src := by
  cases hshell : (survey src).hasShellFence with
  | false =>
      rw [frameShellBlocks_of_not_hasShellFence hshell,
        frameShellBlocks_of_not_hasShellFence hshell]
  | true =>
      rw [frameShellBlocks_of_hasShellFence hshell]
      cases hagain : (survey (ofLines (frameLines none (linesOf src)))).hasShellFence with
      | false =>
          rw [frameShellBlocks_of_not_hasShellFence hagain]
      | true =>
          rw [frameShellBlocks_of_hasShellFence hagain, linesOf_frameLines, frameLines_frameLines]

theorem frameShellBlocks_demoteHeadings {survey : Surveyor} {src : String} {top : Int}
    (hheadings : (survey (frameShellBlocks survey src)).hasHeading = (survey src).hasHeading)
    (hfences : (survey (demoteHeadings survey top src)).hasShellFence =
      (survey src).hasShellFence) :
    frameShellBlocks survey (demoteHeadings survey top src) =
      demoteHeadings survey top (frameShellBlocks survey src) := by
  rcases Int.lt_or_le 1 top with htop | htop
  · cases hheading : (survey src).hasHeading with
    | false =>
        rw [demoteHeadings_of_not_hasHeading hheading,
          demoteHeadings_of_not_hasHeading (hheadings.trans hheading)]
    | true =>
        cases hshell : (survey src).hasShellFence with
        | false =>
            rw [frameShellBlocks_of_not_hasShellFence (hfences.trans hshell),
              frameShellBlocks_of_not_hasShellFence hshell]
        | true =>
            rw [frameShellBlocks_of_hasShellFence (hfences.trans hshell),
              demoteHeadings_of_hasHeading (hheadings.trans hheading) htop,
              demoteHeadings_of_hasHeading hheading htop, frameShellBlocks_of_hasShellFence hshell,
              linesOf_demoteLines, linesOf_frameLines, frameLines_demoteLines]
  · rw [demoteHeadings_of_le _ _ htop, demoteHeadings_of_le _ _ htop]

/-! ## What a pass changes -/

/-- A line that opens a shell block, in the role it has in its document. -/
def OpensShell (line : List Char) (role : Role) : Prop :=
  ∃ o, role = .opener o.fence ∧ Fence.opening? line = some o ∧ String.ofList o.word ∈ shellNames

theorem frameLine_roleIn (fence : Option Fence) (line : List Char) :
    frameLine line (roleIn fence line) = line ∨
      OpensShell line (roleIn fence line) ∧
        frameLine line (roleIn fence line) = framedOpening line := by
  cases fence with
  | some f =>
      rw [roleIn]
      split <;> exact .inl rfl
  | none =>
      cases hopen : Fence.opening? line with
      | none =>
          rw [roleIn_outside hopen]
          exact .inl rfl
      | some o =>
          rw [roleIn_opening hopen, frameLine, hopen]
          dsimp only
          unfold framed
          split
          · next hframe =>
              have hshell := List.contains_iff_mem.1 (Bool.and_eq_true_iff.1 hframe).1
              exact .inr ⟨⟨o, rfl, hopen, hshell⟩, rfl⟩
          · exact .inl rfl

/-- Each line has its role from the fence it is in. -/
theorem exists_roleIn {i : Nat} (fence : Option Fence) (h : lines[i]? = some line) :
    ∃ f, (roles fence lines)[i]? = some (roleIn f line) := by
  induction lines generalizing fence i with
  | nil =>
      cases h
  | cons first rest ih =>
      cases i with
      | zero =>
          cases h
          exact ⟨fence, rfl⟩
      | succ i =>
          exact ih (roleIn fence first).fence? h

theorem getElem?_frameLines {i : Nat} (fence : Option Fence) (h : lines[i]? = some line) :
    (frameLines fence lines)[i]? = some line ∨
      ∃ role, (roles fence lines)[i]? = some role ∧ OpensShell line role ∧
        (frameLines fence lines)[i]? = some (framedOpening line) := by
  rcases exists_roleIn fence h with ⟨f, hrole⟩
  have hframe : (frameLines fence lines)[i]? = some (frameLine line (roleIn f line)) := by
    rw [frameLines_eq, List.getElem?_zipWith, h, hrole]
  rw [hframe]
  rcases frameLine_roleIn f line with hsame | ⟨hopens, hframed⟩
  · exact .inl (congrArg some hsame)
  · exact .inr ⟨_, hrole, hopens, congrArg some hframed⟩

theorem linesOf_frameShellBlocks (survey : Surveyor) (src : String) :
    linesOf (frameShellBlocks survey src) = linesOf src ∨
      linesOf (frameShellBlocks survey src) = frameLines none (linesOf src) := by
  cases hshell : (survey src).hasShellFence with
  | false =>
      exact .inl (by rw [frameShellBlocks_of_not_hasShellFence hshell])
  | true =>
      exact .inr (by rw [frameShellBlocks_of_hasShellFence hshell, linesOf_frameLines])

/-- Framing the shell blocks of a document is done after one pass, whatever is seen in the
documents.  It keeps the number of lines, and the lines it changes open shell blocks and get the
attribute.  It commutes with moving headings, if neither changes what the other asks. -/
theorem frameShellBlocks_settled (survey : Surveyor) (src : String) :
    frameShellBlocks survey (frameShellBlocks survey src) = frameShellBlocks survey src ∧
    (linesOf (frameShellBlocks survey src)).length = (linesOf src).length ∧
    (∀ (i : Nat) (line : List Char), (linesOf src)[i]? = some line →
      (linesOf (frameShellBlocks survey src))[i]? ≠ some line →
      ∃ role, (roles none (linesOf src))[i]? = some role ∧ OpensShell line role ∧
        (linesOf (frameShellBlocks survey src))[i]? = some (framedOpening line)) ∧
    ∀ top : Int, (survey (frameShellBlocks survey src)).hasHeading = (survey src).hasHeading →
      (survey (demoteHeadings survey top src)).hasShellFence = (survey src).hasShellFence →
      frameShellBlocks survey (demoteHeadings survey top src) =
        demoteHeadings survey top (frameShellBlocks survey src) := by
  refine ⟨frameShellBlocks_frameShellBlocks survey src, ?_, ?_,
    fun top hheadings hfences => frameShellBlocks_demoteHeadings hheadings hfences⟩
  · rcases linesOf_frameShellBlocks survey src with hlines | hlines
    · rw [hlines]
    · rw [hlines, length_frameLines]
  · intro i line hline hchanged
    rcases linesOf_frameShellBlocks survey src with hlines | hlines
    · rw [hlines] at hchanged
      exact absurd hline hchanged
    · rw [hlines] at hchanged ⊢
      exact (getElem?_frameLines none hline).resolve_left hchanged

theorem frameShellBlocks_settled_manual :
    ((survey (frameShellBlocks survey manual)).hasHeading = (survey manual).hasHeading ∧
      (survey (demoteHeadings survey 2 manual)).hasShellFence = (survey manual).hasShellFence ∧
      (linesOf manual)[2]? = some "```sh".toList ∧
      (linesOf (frameShellBlocks survey manual))[2]? ≠ some "```sh".toList) ∧
    frameShellBlocks survey (demoteHeadings survey 2 manual) =
        demoteHeadings survey 2 (frameShellBlocks survey manual) ∧
      ∃ role, (roles none (linesOf manual))[2]? = some role ∧ OpensShell "```sh".toList role := by
  have hheadings : (survey (frameShellBlocks survey manual)).hasHeading =
      (survey manual).hasHeading := by
    decide +kernel
  have hfences : (survey (demoteHeadings survey 2 manual)).hasShellFence =
      (survey manual).hasShellFence := by
    decide +kernel
  have hline : (linesOf manual)[2]? = some "```sh".toList := by
    decide +kernel
  have hchanged : (linesOf (frameShellBlocks survey manual))[2]? ≠ some "```sh".toList := by
    decide +kernel
  rcases frameShellBlocks_settled survey manual with ⟨-, -, hchanges, hcommute⟩
  rcases hchanges 2 _ hline hchanged with ⟨role, hrole, hopens, -⟩
  exact ⟨⟨hheadings, hfences, hline, hchanged⟩, hcommute 2 hheadings hfences, role, hrole, hopens⟩

end Markdown
end ApiPages

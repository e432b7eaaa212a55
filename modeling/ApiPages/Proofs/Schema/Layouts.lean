import ApiPages.Proofs.Schema.Boundaries
import ApiPages.Proofs.Schema.Steps
import Mathlib.Data.List.Forall2
import Mathlib.Data.List.TakeWhile

/-!
# Laying out statements on lines

The reader takes a line at a time, but only the statements count.  A layout puts a row of statements
on lines in any way: some on one line, blanks around them, blank lines in between.

* `Statement.Movable` are the statements that can share a line with others, `Statement.IsEnded`
  those that can have others behind them;
* `LaidOut` relates a row of statements to the texts that hold them;
* `Layout.line_eq` says what a line of a layout does to the reader, `Schema.parse_laidOut` what a
  laid out text is read as, and `Schema.parse_congr_laidOut` that the layout does not matter.
-/

namespace ApiPages

/-! ## Statements -/

namespace Statement

/-- The statement is a closing brace, or a mark ends it outside literals and brackets. -/
def IsEnded (s : List Char) : Prop :=
  s = ['\x7d'] ∨ ∃ front t, s = front ++ [t] ∧ (t = ';' ∨ t = '\x7b') ∧
    (Mode.after {} front).quote = none ∧ (Mode.after {} front).brackets = 0

/-- A statement without comments that is one piece of one line. -/
structure Movable (s : List Char) : Prop where
  whole : split s = [s]
  oneLine : '\n' ∉ s
  /-- No `//` in it stands outside literals. -/
  silent : Mode.Silent {} s
  noBlockComment : ¬['/', '*'] <+: s

instance (s : List Char) : Decidable (Movable s) :=
  decidable_of_iff (split s = [s] ∧ '\n' ∉ s ∧ Mode.comment? {} [] s = none ∧ ¬['/', '*'] <+: s)
    ⟨fun ⟨hwhole, hline, hsilent, hopen⟩ =>
      ⟨hwhole, hline, (comment?_eq_none_iff {} [] s).1 hsilent, hopen⟩,
      fun h => ⟨h.whole, h.oneLine, (comment?_eq_none_iff {} [] s).2 h.silent, h.noBlockComment⟩⟩

theorem isEnded_iff (s : List Char) : IsEnded s ↔ s = ['\x7d'] ∨
    (s.getLast? = some ';' ∨ s.getLast? = some '\x7b') ∧
      (Mode.after {} s.dropLast).quote = none ∧ (Mode.after {} s.dropLast).brackets = 0 := by
  unfold IsEnded
  refine or_congr_right ⟨?_, ?_⟩
  · rintro ⟨front, t, rfl, ht, hmode⟩
    simpa [ht] using hmode
  · rintro ⟨hlast | hlast, hmode⟩
    · exact ⟨s.dropLast, ';', (List.dropLast_append_getLast? _ hlast).symm, .inl rfl, hmode⟩
    · exact ⟨s.dropLast, '\x7b', (List.dropLast_append_getLast? _ hlast).symm, .inr rfl, hmode⟩

instance (s : List Char) : Decidable (IsEnded s) :=
  decidable_of_iff _ (isEnded_iff s).symm

theorem IsEnded.exists_end {s : List Char} (h : IsEnded s) :
    ∃ front t, s = front ++ [t] ∧ isEnd t = true ∧ Mode.after {} front = {} := by
  rcases h with rfl | ⟨front, t, rfl, ht, hquote, hbrackets⟩
  · exact ⟨[], '\x7d', rfl, rfl, rfl⟩
  · refine ⟨front, t, rfl, ?_, Mode.after_eq_start hquote hbrackets⟩
    rcases ht with rfl | rfl
    · rfl
    · rfl

end Statement

/-! ## Layouts -/

namespace Layout

/-- A line that holds a row of statements, with blanks around them. -/
inductive Line : List (List Char) → List Char → Prop where
  | blank {blanks : List Char} : (∀ c ∈ blanks, Text.isBlank c = true) → Line [] blanks
  | cons {blanks s rest : List Char} {stmts : List (List Char)} :
      (∀ c ∈ blanks, Text.isBlank c = true) → Line stmts rest →
        Line (s :: stmts) (blanks ++ s ++ rest)

end Layout

/-- The text holds the statements, in order, on lines. -/
def LaidOut (stmts : List (List Char)) (text : String) : Prop :=
  ∃ groups : List (List (List Char)), groups.flatten = stmts ∧
    List.Forall₂ Layout.Line groups (text.toList.splitOn '\n')

namespace Layout

open Statement (Mode Movable IsEnded)

variable {stmts : List (List Char)} {raw : List Char}

/-! ### One line -/

theorem split_line (h : Line stmts raw) (hmovable : ∀ s ∈ stmts, Movable s)
    (hended : ∀ s ∈ stmts.dropLast, IsEnded s) : Statement.split raw = stmts := by
  induction h with
  | blank hblanks =>
      exact Statement.split_of_blank hblanks
  | @cons blanks s rest stmts hblanks hrest ih =>
      have hwhole := (hmovable s (List.mem_cons_self ..)).whole
      cases stmts with
      | nil =>
          -- what is behind the last statement is blank
          cases hrest with
          | blank hafter =>
              rw [Statement.split_append_blanks hafter,
                Statement.split_blanks_append hblanks, hwhole]
      | cons next stmts =>
          rcases (hended s (List.mem_cons_self ..)).exists_end with ⟨front, t, rfl, ht, hfront⟩
          have hstmts := ih (fun u hu => hmovable u (List.mem_cons_of_mem _ hu))
            (fun u hu => hended u (List.mem_cons_of_mem _ hu))
          have hcut := Statement.split_append_ended hfront ht rest
          rw [List.append_assoc, List.append_assoc, List.singleton_append,
            Statement.split_blanks_append hblanks, hcut, hwhole, hstmts]
          rfl

/-- No comment begins on the line. -/
theorem comment?_line (h : Line stmts raw) (hmovable : ∀ s ∈ stmts, Movable s)
    (hended : ∀ s ∈ stmts.dropLast, IsEnded s) (before : List Char) :
    Mode.comment? {} before raw = none := by
  induction h generalizing before with
  | blank hblanks =>
      exact Statement.comment?_append_blanks {} hblanks before []
  | @cons blanks s rest stmts hblanks hrest ih =>
      have hsilent : ∀ before, Mode.comment? {} before s = none := fun before =>
        (Statement.comment?_eq_none_iff _ before s).2 (hmovable s (List.mem_cons_self ..)).silent
      rw [List.append_assoc, Statement.comment?_blanks_append rfl hblanks]
      cases stmts with
      | nil =>
          cases hrest with
          | blank hafter =>
              rw [Statement.comment?_append_blanks _ hafter, hsilent]
              rfl
      | cons next stmts =>
          rcases (hended s (List.mem_cons_self ..)).exists_end with ⟨front, t, rfl, ht, hfront⟩
          have hstmts := ih (fun u hu => hmovable u (List.mem_cons_of_mem _ hu))
            (fun u hu => hended u (List.mem_cons_of_mem _ hu))
          have hlast : (front ++ [t]).getLast? ≠ some '/' := by
            rw [List.getLast?_concat]
            rintro ⟨⟩
            cases ht
          have hmode : Mode.after {} (front ++ [t]) = {} := by
            rw [Mode.after_append, hfront]
            exact Statement.step_of_isEnd ht
          rw [Statement.comment?_append (hsilent []) hlast, hmode, hstmts]

/-- The line begins no block comment. -/
theorem trim_line_ne (h : Line stmts raw) (hmovable : ∀ s ∈ stmts, Movable s)
    (hended : ∀ s ∈ stmts.dropLast, IsEnded s) (comment : List Char) :
    Text.trim raw ≠ '/' :: '*' :: comment := by
  intro htrim
  rcases Text.exists_trimLeft raw with ⟨after, hleft, hafter⟩
  rw [htrim] at hleft
  cases h with
  | blank hblanks =>
      have hnone : Text.trimLeft raw = [] := List.dropWhile_eq_nil_iff.2 hblanks
      rw [hnone] at hleft
      cases hleft
  | @cons blanks s rest stmts hblanks hrest =>
      have hs := hmovable s (List.mem_cons_self ..)
      have hmem : s ∈ Statement.split s := by
        rw [hs.whole]
        exact List.mem_cons_self ..
      rcases Statement.trim_of_mem_split hmem with ⟨hstrim, hne⟩
      cases s with
      | nil =>
          exact hne rfl
      | cons c s =>
          have hc : Text.isBlank c = false :=
            Text.isBlank_head_of_trim (c :: s) (by rw [hstrim]; rfl)
          have hfront : Text.trimLeft (blanks ++ (c :: s) ++ rest) = c :: (s ++ rest) := by
            rw [Text.trimLeft, List.append_assoc, List.dropWhile_append_of_pos hblanks]
            simp [hc]
          rw [hfront] at hleft
          injection hleft with hslash hmore
          subst hslash
          cases s with
          | cons d s =>
              -- the statement itself would begin the comment
              injection hmore with hstar
              subst hstar
              exact hs.noBlockComment ⟨s, rfl⟩
          | nil =>
              cases stmts with
              | nil =>
                  -- behind the last statement there are only blanks
                  cases hrest with
                  | blank hblank =>
                      have hstar := hblank '*' (by
                        rw [List.nil_append] at hmore
                        rw [hmore]
                        exact List.mem_cons_self ..)
                      revert hstar
                      decide
              | cons next stmts =>
                  -- a slash alone ends no statement
                  rcases (hended ['/'] (List.mem_cons_self ..)).exists_end with
                    ⟨front, t, hslash, ht, -⟩
                  have hlast : some t = some '/' := by
                    rw [← List.getLast?_concat (a := t) (l := front), ← hslash]
                    rfl
                  cases hlast
                  cases ht

/-! ### The reader -/

/-- The reader between two lines of a text without comments. -/
structure IsQuiet (r : Reader) : Prop where
  pending : r.pending = []
  inComment : r.inComment = false

theorem IsQuiet.take {r : Reader} (h : IsQuiet r) (stmts : List (List Char)) :
    IsQuiet (r.take stmts) where
  pending := Reader.pending_take h.pending stmts
  inComment := (Reader.inComment_take r stmts).trans h.inComment

/-- The reader takes the statements of the line. -/
theorem line_eq {r : Reader} (hr : IsQuiet r) (h : Line stmts raw)
    (hmovable : ∀ s ∈ stmts, Movable s) (hended : ∀ s ∈ stmts.dropLast, IsEnded s) :
    r.line raw = r.take stmts := by
  rcases Text.exists_append_trim raw with ⟨before, after, hraw, hbefore, hafter⟩
  have hsplit : Statement.split (Text.trim raw) = stmts := by
    rw [Statement.split_trim]
    exact split_line h hmovable hended
  have hnone : Statement.findComment none [] (Text.trim raw) = none := by
    have hline := comment?_line h hmovable hended []
    rw [hraw, List.append_assoc, Statement.comment?_blanks_append rfl hbefore,
      Statement.comment?_append_blanks _ hafter, Option.map_eq_none_iff] at hline
    rw [Statement.findComment_eq_comment? {} rfl]
    exact (Statement.comment?_eq_none _ _ _ _).1 hline
  have hcomment : Statement.splitComment (Text.trim raw) = (Text.trim raw, []) := by
    simp [Statement.splitComment, hnone]
  have hcode : r.codeLine (Text.trim raw) = r.take stmts := by
    unfold Reader.codeLine
    simp only [hcomment, hsplit, ← Reader.statements_fst]
    split
    · rfl
    · rfl
  unfold Reader.line
  simp only [hr.inComment, Bool.false_eq_true, if_false]
  split
  · next hblank =>
      -- a blank line holds no statements
      rw [hblank] at hsplit
      rw [← hsplit]
      rcases r with ⟨schema, block, depth, pending, inComment⟩
      obtain rfl : pending = [] := hr.pending
      obtain rfl : inComment = false := hr.inComment
      rfl
  · next rest hslashes =>
      rw [hslashes] at hnone
      cases hnone
  · next rest hopen =>
      exact absurd hopen (trim_line_ne h hmovable hended rest)
  · exact hcode

/-! ### All lines -/

/-- A group of statements is a part of the row, and so is the group without its last statement. -/
theorem mem_dropLast_flatten {groups : List (List (List Char))} {group : List (List Char)}
    {s : List Char} (hgroup : group ∈ groups) (hs : s ∈ group.dropLast) :
    s ∈ groups.flatten.dropLast := by
  rcases List.append_of_mem hgroup with ⟨front, back, rfl⟩
  have hflat : (front ++ group :: back).flatten = front.flatten ++ (group ++ back.flatten) := by
    simp
  have hne : group ≠ [] := by
    rintro rfl
    cases hs
  rw [hflat, List.dropLast_append_of_ne_nil (by simp [hne])]
  refine List.mem_append_right _ ?_
  cases hback : back.flatten with
  | nil =>
      rwa [List.append_nil]
  | cons t ts =>
      rw [List.dropLast_append_of_ne_nil (by simp)]
      exact List.mem_append_left _ (List.dropLast_subset _ hs)

theorem foldl_line_eq {groups : List (List (List Char))} {lines : List (List Char)}
    (h : List.Forall₂ Line groups lines) (hmovable : ∀ group ∈ groups, ∀ s ∈ group, Movable s)
    (hended : ∀ group ∈ groups, ∀ s ∈ group.dropLast, IsEnded s) {r : Reader} (hr : IsQuiet r) :
    lines.foldl Reader.line r = r.take groups.flatten := by
  induction h generalizing r with
  | nil =>
      rfl
  | @cons group raw groups lines hline _ ih =>
      rcases List.forall_mem_cons.1 hmovable with ⟨hgroup, hgroups⟩
      rcases List.forall_mem_cons.1 hended with ⟨hfirst, hrest⟩
      rw [List.foldl_cons, line_eq hr hline hgroup hfirst, ih hgroups hrest (hr.take group),
        List.flatten_cons, Reader.take_append]

end Layout

namespace Schema

open Statement (Movable IsEnded)

variable {stmts : List (List Char)} {text text' : String}

/-- A laid out text is read statement by statement. -/
theorem parse_laidOut (h : LaidOut stmts text) (hmovable : ∀ s ∈ stmts, Movable s)
    (hended : ∀ s ∈ stmts.dropLast, IsEnded s) :
    parse text = (({} : Reader).take stmts).finish := by
  rcases h with ⟨groups, rfl, hlines⟩
  have hfold := Layout.foldl_line_eq hlines
    (fun group hgroup s hs => hmovable s (List.mem_flatten.2 ⟨group, hgroup, hs⟩))
    (fun group hgroup s hs => hended s (Layout.mem_dropLast_flatten hgroup hs)) (r := {}) ⟨rfl, rfl⟩
  rw [parse, ofLines, hfold]

/-- How statements are laid out on lines does not matter. -/
theorem parse_congr_laidOut (hmovable : ∀ s ∈ stmts, Movable s)
    (hended : ∀ s ∈ stmts.dropLast, IsEnded s) (h : LaidOut stmts text) (h' : LaidOut stmts text') :
    parse text = parse text' := by
  rw [parse_laidOut h hmovable hended, parse_laidOut h' hmovable hended]

def rangeHeader : List Char :=
  "message R \x7b".toList

/-- Its marks stand inside a literal and inside brackets. -/
def rangeField : List Char :=
  "string a = 1 [x = \"//;\"];".toList

/-- Nothing ends it. -/
def rangePackage : List Char :=
  "package r".toList

def rangeStatements : List (List Char) :=
  [rangeHeader, rangeField, ['\x7d'], rangePackage]

def rangeLine : String :=
  "  message R \x7bstring a = 1 [x = \"//;\"]; \x7d package r"

def rangeLines : String :=
  "message R \x7b\x0d\n\tstring a = 1 [x = \"//;\"]; \x7d\x0d\n\x0d\npackage r"

theorem parse_congr_range :
    (∀ s ∈ rangeStatements, Movable s) ∧ (∀ s ∈ rangeStatements.dropLast, IsEnded s) ∧
      LaidOut rangeStatements rangeLine ∧ LaidOut rangeStatements rangeLines ∧
        parse rangeLine = parse rangeLines := by
  have hmovable : ∀ s ∈ rangeStatements, Movable s := by decide +kernel
  have hended : ∀ s ∈ rangeStatements.dropLast, IsEnded s := by decide +kernel
  have hcons : ∀ (blanks s : List Char) {stmts : List (List Char)} {rest : List Char},
      blanks.all Text.isBlank = true → Layout.Line stmts rest →
        Layout.Line (s :: stmts) (blanks ++ s ++ rest) :=
    fun _ _ _ _ hblanks hrest => .cons (List.all_eq_true.1 hblanks) hrest
  have hend : ∀ blanks : List Char, blanks.all Text.isBlank = true → Layout.Line [] blanks :=
    fun _ hblanks => .blank (List.all_eq_true.1 hblanks)
  have hline : LaidOut rangeStatements rangeLine := by
    have hsplit : rangeLine.toList.splitOn '\n' =
        [[' ', ' '] ++ rangeHeader ++
          ([] ++ rangeField ++ ([' '] ++ ['\x7d'] ++ ([' '] ++ rangePackage ++ [])))] := by
      decide +kernel
    refine ⟨[rangeStatements], rfl, ?_⟩
    rw [hsplit]
    exact .cons (hcons _ _ rfl (hcons _ _ rfl (hcons _ _ rfl (hcons _ _ rfl (hend [] rfl))))) .nil
  have hlines : LaidOut rangeStatements rangeLines := by
    have hsplit : rangeLines.toList.splitOn '\n' =
        [[] ++ rangeHeader ++ ['\r'], ['\t'] ++ rangeField ++ ([' '] ++ ['\x7d'] ++ ['\r']), ['\r'],
          [] ++ rangePackage ++ []] := by
      decide +kernel
    refine ⟨[[rangeHeader], [rangeField, ['\x7d']], [], [rangePackage]], rfl, ?_⟩
    rw [hsplit]
    exact .cons (hcons _ _ rfl (hend _ rfl)) (.cons (hcons _ _ rfl (hcons _ _ rfl (hend _ rfl)))
      (.cons (hend _ rfl) (.cons (hcons _ _ rfl (hend [] rfl)) .nil)))
  exact ⟨hmovable, hended, hline, hlines, parse_congr_laidOut hmovable hended hline hlines⟩

end Schema
end ApiPages

import ApiPages.Proofs.Schema.InlineComments

/-!
# Parts of a line

A line is cut into its code and its comment, and the code into statements.  Nothing but blanks gets
lost, and what was cut once is not cut further.

* `Statement.splitComment_cases` says where the comment of a line begins, `Statement.exists_trim_eq`
  puts the line together again;
* `Statement.Cuts` relates code to its statements, one step for each mark that ends some, and
  `Statement.cuts_split` says that the statements are cut this way;
* `Statement.Cuts.isPiece`, `Statement.Cuts.visible_flatten` and `Statement.Cuts.split_joined` say
  what the statements look like, that they hold all of the code, and that they stay the same when
  they are joined and cut again;
* `Statement.splitting_lossless` puts this together.
-/

namespace ApiPages
namespace Statement

/-! ## Comments -/

/-- Code in front of a comment holds no comment, and no literal is open behind it. -/
theorem eq_of_comment? {m : Mode} {cs code comment : List Char}
    (h : m.comment? [] cs = some (code, comment)) :
    cs = code ++ '/' :: '/' :: comment ∧ m.Silent code ∧ (m.after code).quote = none := by
  induction cs generalizing m code with
  | nil =>
      cases h
  | cons c cs ih =>
      rw [Mode.comment?.eq_2] at h
      split at h
      · next hmark =>
          simp only [Bool.and_eq_true, beq_iff_eq, Option.isNone_iff_eq_none,
            List.head?_eq_some_iff] at hmark
          rcases hmark with ⟨⟨hquote, rfl⟩, more, rfl⟩
          cases h
          refine ⟨rfl, fun front back hnil => ?_, hquote⟩
          simp at hnil
      · next hmark =>
          rw [comment?_map] at h
          rcases Option.map_eq_some_iff.1 h with ⟨⟨front, back⟩, hparts, heq⟩
          cases heq
          rcases ih hparts with ⟨rfl, hsilent, hquote⟩
          refine ⟨rfl, fun before after hcut => ?_, hquote⟩
          cases before with
          | nil =>
              -- the mark would begin with the first character
              intro hnone
              injection hcut with hc hfront
              subst hc
              have hfront' : front = '/' :: after := hfront
              subst hfront'
              exact hmark (by simpa using hnone)
          | cons d before =>
              injection hcut with hc hfront
              subst hc
              exact hsilent before after hfront

theorem splitComment_cases (line : List Char) :
    (Mode.Silent {} line ∧ splitComment line = (line, [])) ∨
      ∃ code comment, line = code ++ '/' :: '/' :: comment ∧ Mode.Silent {} code ∧
        (Mode.after {} code).quote = none ∧
        splitComment line = (Text.trim code, Text.trim comment) := by
  have hfind := findComment_eq_comment? {} rfl [] line
  unfold splitComment
  rw [hfind]
  cases hcomment : Mode.comment? {} [] line with
  | none =>
      exact .inl ⟨(comment?_eq_none_iff {} [] line).1 hcomment, rfl⟩
  | some parts =>
      rcases eq_of_comment? hcomment with ⟨hline, hsilent, hquote⟩
      exact .inr ⟨parts.1, parts.2, hline, hsilent, hquote, rfl⟩

theorem splitComment_of_silent {line : List Char} (h : Mode.Silent {} line) :
    splitComment line = (line, []) := by
  have hfind : findComment none [] line = none := (findComment_eq_none_iff line).2 h
  rw [splitComment, hfind]

theorem silent_trim {cs : List Char} (h : Mode.Silent {} cs) : Mode.Silent {} (Text.trim cs) := by
  rcases Text.exists_append_trim cs with ⟨before, after, hcs, hbefore, -⟩
  intro front back htrim
  have hopen := h (before ++ front) (back ++ after) (by rw [hcs, htrim]; simp)
  rwa [Mode.after_append, after_blanks rfl hbefore] at hopen

/-- The code of a line holds no comment. -/
theorem silent_splitComment (line : List Char) : Mode.Silent {} (splitComment line).1 := by
  rcases splitComment_cases line with ⟨hsilent, hsplit⟩ | ⟨code, comment, -, hsilent, -, hsplit⟩
  · rw [hsplit]
    exact hsilent
  · rw [hsplit]
    exact silent_trim hsilent

/-- Up to blanks a line is its code and its comment with the mark between them. -/
theorem exists_trim_eq (code comment : List Char) : ∃ gap gap' : List Char,
    (∀ c ∈ gap ++ gap', Text.isBlank c = true) ∧ Text.trim (code ++ '/' :: '/' :: comment) =
      Text.trim code ++ gap ++ ['/', '/'] ++ gap' ++ Text.trim comment := by
  rcases Text.exists_trimLeft code with ⟨gap, hleft, hgap⟩
  rcases Text.exists_trimRight comment with ⟨gap', hright, hgap'⟩
  refine ⟨gap, gap', List.forall_mem_append.2 ⟨hgap, hgap'⟩, ?_⟩
  have hslash : Text.isBlank '/' = false := by decide
  have hback : Text.trimRight ('/' :: '/' :: comment) = '/' :: '/' :: Text.trimRight comment := by
    rw [Text.trimRight_cons hslash, Text.trimRight_cons hslash]
  calc
    Text.trim (code ++ '/' :: '/' :: comment)
        = Text.trimRight (Text.trimLeft code ++ '/' :: '/' :: comment) := by
          rw [Text.trim, Text.trimLeft_append_cons hslash]
    _ = Text.trimLeft code ++ '/' :: '/' :: Text.trimRight comment := by
          rw [Text.trimRight_append (by rw [hback]; simp), hback]
    _ = Text.trim code ++ gap ++ ['/', '/'] ++ gap' ++ Text.trim comment := by
          rw [hleft, hright]
          simp

/-! ## Statements -/

/-- What is left of a text without its blanks. -/
def visible (cs : List Char) : List Char :=
  cs.filter fun c => !Text.isBlank c

theorem visible_append (cs ds : List Char) : visible (cs ++ ds) = visible cs ++ visible ds :=
  List.filter_append ..

theorem visible_blanks {blanks : List Char} (h : ∀ c ∈ blanks, Text.isBlank c = true) :
    visible blanks = [] := by
  refine List.filter_eq_nil_iff.2 fun c hc => ?_
  simp [h c hc]

theorem visible_trim (cs : List Char) : visible (Text.trim cs) = visible cs := by
  rcases Text.exists_append_trim cs with ⟨before, after, hcs, hbefore, hafter⟩
  conv_rhs =>
    rw [hcs, visible_append, visible_append, visible_blanks hbefore, visible_blanks hafter]
  simp

/-- A closing brace, or code in which no mark outside literals and brackets would end a statement,
unless it is a `;` or an opening brace at the very end. -/
def IsPiece (s : List Char) : Prop :=
  s = ['\x7d'] ∨ ∀ front t back, s = front ++ t :: back → isEnd t = true →
    (Mode.after {} front).quote = none → (Mode.after {} front).brackets = 0 →
      back = [] ∧ (t = ';' ∨ t = '\x7b')

/-- Code is unbroken if none of its characters ends a statement where it stands. -/
theorem Mode.unbroken_iff (m : Mode) (cs : List Char) : m.unbroken cs = true ↔
    ∀ front t back, cs = front ++ t :: back → isEnd t = true → (m.after front).quote = none →
      (m.after front).brackets ≠ 0 := by
  constructor
  · rintro h front t back rfl ht hquote hbrackets
    rw [unbroken_append, unbroken, Bool.and_eq_true, Bool.and_eq_true] at h
    simp [ht, hquote, hbrackets] at h
  · intro h
    induction cs generalizing m with
    | nil =>
        rfl
    | cons c cs ih =>
        rw [unbroken, Bool.and_eq_true]
        refine ⟨?_, ih _ fun front t back hcs => h (c :: front) t back (congrArg (c :: ·) hcs)⟩
        have hc := h [] c cs rfl
        by_contra hend
        simp only [Bool.not_eq_true', Bool.not_eq_false, Bool.and_eq_true, beq_iff_eq,
          Option.isNone_iff_eq_none] at hend
        exact hc hend.1.1 hend.1.2 hend.2

theorem Mode.unbroken_trim {cs : List Char} (h : unbroken {} cs = true) :
    unbroken {} (Text.trim cs) = true := by
  rcases Text.exists_append_trim cs with ⟨before, after, hcs, hbefore, -⟩
  rw [hcs, unbroken_append, unbroken_append, after_blanks rfl hbefore, Bool.and_eq_true,
    Bool.and_eq_true] at h
  exact h.1.2

/-- Blanks in front of a piece of code do not matter to the scanners. -/
theorem Mode.trimLeft_spec (cs : List Char) : after {} (Text.trimLeft cs) = after {} cs ∧
    unbroken {} cs =
      (unbroken {} (cs.takeWhile Text.isBlank) && unbroken {} (Text.trimLeft cs)) := by
  have hblanks : ∀ c ∈ cs.takeWhile Text.isBlank, Text.isBlank c = true :=
    fun c hc => List.all_eq_true.1 List.all_takeWhile c hc
  have hcs : cs = cs.takeWhile Text.isBlank ++ Text.trimLeft cs :=
    List.takeWhile_append_dropWhile.symm
  have hstart : after {} (cs.takeWhile Text.isBlank) = {} := after_blanks rfl hblanks
  constructor
  · conv_rhs => rw [hcs, after_append, hstart]
  · conv_lhs => rw [hcs, unbroken_append, hstart]

/-- Blanks around a piece of code do not matter to the scanners. -/
theorem Mode.after_trim {cs : List Char} (h : after {} cs = {}) : after {} (Text.trim cs) = {} := by
  have hquote : (after {} (Text.trim cs)).quote = none := closed_trim (by rw [h])
  rcases Text.exists_append_trim cs with ⟨before, behind, hcs, hbefore, hbehind⟩
  rwa [hcs, after_append, after_append, after_blanks rfl hbefore, after_blanks hquote hbehind] at h

/-- Unbroken code begins a piece that may go on with a mark. -/
theorem isPiece_concat {front : List Char} (h : Mode.unbroken {} front = true) {t : Char}
    (ht : t = ';' ∨ t = '\x7b') : IsPiece (front ++ [t]) := by
  refine .inr fun before c back hcut hc hquote hbrackets => ?_
  rcases List.eq_nil_or_concat back with rfl | ⟨back, d, rfl⟩
  · rcases List.append_inj' hcut rfl with ⟨-, hlast⟩
    cases hlast
    exact ⟨rfl, ht⟩
  · -- a mark before the last character stands in the code in front
    have hfront : front = before ++ c :: back := by
      have hcut' : front ++ [t] = (before ++ c :: back) ++ [d] := by simpa using hcut
      exact (List.append_inj' hcut' rfl).1
    exact absurd hbrackets ((Mode.unbroken_iff {} front).1 h before c back hfront hc hquote)

/-- In code there is no mark that ends a statement, or there is a first one. -/
theorem exists_first_end (cs : List Char) : Mode.unbroken {} cs = true ∨
    ∃ front t rest, cs = front ++ t :: rest ∧ isEnd t = true ∧ Mode.unbroken {} front = true ∧
      Mode.after {} front = {} := by
  -- from the left, so that the mark that is found stays the first one
  induction cs using List.reverseRecOn with
  | nil =>
      exact .inl rfl
  | append_singleton cs c ih =>
      rcases ih with hcs | ⟨front, t, rest, rfl, ht, hfront, hstart⟩
      · by_cases hend :
          (isEnd c && (Mode.after {} cs).quote.isNone && (Mode.after {} cs).brackets == 0) = true
        · simp only [Bool.and_eq_true, Option.isNone_iff_eq_none, beq_iff_eq] at hend
          exact .inr ⟨cs, c, [], rfl, hend.1.1, hcs, Mode.after_eq_start hend.1.2 hend.2⟩
        · refine .inl ?_
          rw [Mode.unbroken_append, hcs, Bool.true_and, Mode.unbroken, Mode.unbroken, Bool.and_true,
            Bool.not_eq_true']
          exact Bool.eq_false_iff.2 hend
      · exact .inr ⟨front, t, rest ++ [c], by simp, ht, hfront, hstart⟩

/-- Code and its statements.  Up to the first mark that ends a statement there are one or two of
them. -/
inductive Cuts : List Char → List (List Char) → Prop where
  | blank {cs : List Char} : Text.trim cs = [] → Cuts cs []
  | unbroken {cs : List Char} : Mode.unbroken {} cs = true → Text.trim cs ≠ [] →
        Cuts cs [Text.trim cs]
  | ended {front rest : List Char} {t : Char} {stmts : List (List Char)} :
        Mode.unbroken {} front = true →
      Mode.after {} front = {} → t = ';' ∨ t = '\x7b' → Cuts rest stmts →
      Cuts (front ++ t :: rest) (Text.trim (front ++ [t]) :: stmts)
  | closing {front rest : List Char} {stmts : List (List Char)} : Text.trim front = [] →
      Cuts rest stmts →
      Cuts (front ++ '\x7d' :: rest) (['\x7d'] :: stmts)
  | closingBehind {front rest : List Char} {stmts : List (List Char)} :
        Mode.unbroken {} front = true →
      Mode.after {} front = {} → Text.trim front ≠ [] → Cuts rest stmts →
      Cuts (front ++ '\x7d' :: rest) (Text.trim front :: ['\x7d'] :: stmts)

theorem isEnd_of_mark {t : Char} (ht : t = ';' ∨ t = '\x7b') : isEnd t = true := by
  rcases ht with rfl | rfl <;> rfl

theorem trim_concat {t : Char} (ht : isEnd t = true) (front : List Char) :
    Text.trim (front ++ [t]) = Text.trimLeft front ++ [t] := by
  have hblank : Text.isBlank t = false := by
    refine Bool.eq_false_iff.2 fun hblank => ?_
    rw [isEnd_of_isBlank hblank] at ht
    cases ht
  have hone : Text.trimRight [t] = [t] := by simp [Text.trimRight, hblank]
  rw [Text.trim, Text.trimLeft_append_cons hblank, Text.trimRight_append (by rw [hone]; simp), hone]

theorem split_ended {front : List Char} (h : Mode.unbroken {} front = true)
    (hstart : Mode.after {} front = {}) {t : Char} (ht : t = ';' ∨ t = '\x7b') :
    split (front ++ [t]) = [Text.trim (front ++ [t])] := by
  have hne : Text.trim (front ++ [t]) ≠ [] := by
    rw [trim_concat (isEnd_of_mark ht)]
    simp
  have hnil : Text.trim [] = [] := rfl
  rw [split_eq_cut, cut_append_of_unbroken h, hstart]
  rcases ht with rfl | rfl <;> simp [Mode.cut, isEnd, ended, emit, hne, hnil]

theorem split_closing {front : List Char} (h : Mode.unbroken {} front = true)
    (hstart : Mode.after {} front = {}) :
    split (front ++ ['\x7d']) =
      if (Text.trim front).isEmpty then [['\x7d']] else [Text.trim front, ['\x7d']] := by
  have hnil : Text.trim [] = [] := rfl
  have hbrace : Text.trim ['\x7d'] = ['\x7d'] := by decide
  rw [split_eq_cut, cut_append_of_unbroken h, hstart]
  by_cases hblank : Text.trim front = []
  · simp [Mode.cut, isEnd, ended, emit, hnil, hbrace, hblank]
  · simp [Mode.cut, isEnd, ended, emit, hnil, hbrace, hblank]

theorem cuts_split (cs : List Char) : Cuts cs (split cs) := by
  -- each step leaves the code behind the first mark
  induction hlength : cs.length using Nat.strong_induction_on generalizing cs with
  | _ n ih =>
      subst hlength
      rcases exists_first_end cs with hunbroken | ⟨front, t, rest, rfl, ht, hfront, hstart⟩
      · rw [split_of_unbroken hunbroken]
        split
        · next hempty =>
            exact .blank (List.isEmpty_iff.1 hempty)
        · next hne =>
            exact .unbroken hunbroken (mt List.isEmpty_iff.2 hne)
      · have hrest : Cuts rest (split rest) := ih rest.length (by simp; omega) rest rfl
        rw [split_append_ended hstart ht]
        by_cases hbrace : t = '\x7d'
        · subst hbrace
          rw [split_closing hfront hstart]
          split
          · next hempty =>
              exact .closing (List.isEmpty_iff.1 hempty) hrest
          · next hne =>
              exact .closingBehind hfront hstart (mt List.isEmpty_iff.2 hne) hrest
        · have hmark : t = ';' ∨ t = '\x7b' := by
            simpa [isEnd, hbrace] using ht
          rw [split_ended hfront hstart hmark]
          exact .ended hfront hstart hmark hrest

variable {cs : List Char} {stmts : List (List Char)}

theorem Cuts.isPiece (h : Cuts cs stmts) : ∀ s ∈ stmts, IsPiece s := by
  have hwhole : ∀ cs, Mode.unbroken {} cs = true → IsPiece (Text.trim cs) := by
    intro cs hcs
    have htrim := (Mode.unbroken_iff {} _).1 (Mode.unbroken_trim hcs)
    exact .inr fun front t back hcut ht hquote hbrackets =>
      absurd hbrackets (htrim front t back hcut ht hquote)
  induction h with
  | blank _ =>
      intro s hs
      cases hs
  | unbroken hcs _ =>
      exact List.forall_mem_singleton.2 (hwhole _ hcs)
  | @ended front rest t stmts hfront _ ht _ ih =>
      refine List.forall_mem_cons.2 ⟨?_, ih⟩
      rw [trim_concat (isEnd_of_mark ht)]
      rw [(Mode.trimLeft_spec front).2, Bool.and_eq_true] at hfront
      exact isPiece_concat hfront.2 ht
  | closing _ _ ih =>
      exact List.forall_mem_cons.2 ⟨.inl rfl, ih⟩
  | closingBehind hfront _ _ _ ih =>
      exact List.forall_mem_cons.2 ⟨hwhole _ hfront, List.forall_mem_cons.2 ⟨.inl rfl, ih⟩⟩

/-- The statements hold all of the code but blanks. -/
theorem Cuts.visible_flatten (h : Cuts cs stmts) : visible stmts.flatten = visible cs := by
  induction h with
  | blank hblank =>
      exact (visible_blanks (Text.all_isBlank_of_trim_eq_nil hblank)).symm
  | unbroken _ _ =>
      rw [List.flatten_singleton, visible_trim]
  | @ended front rest t _ _ _ _ _ ih =>
      calc
        visible (Text.trim (front ++ [t]) :: _).flatten
            = visible (front ++ [t]) ++ visible rest := by
              rw [List.flatten_cons, visible_append, visible_trim, ih]
        _ = visible (front ++ t :: rest) := by
              rw [← visible_append, List.append_assoc, List.singleton_append]
  | @closing front rest _ hblank _ ih =>
      have hfront := visible_blanks (Text.all_isBlank_of_trim_eq_nil hblank)
      calc
        visible (['\x7d'] :: _).flatten
            = visible ['\x7d'] ++ visible rest := by
              rw [List.flatten_cons, visible_append, ih]
        _ = visible (front ++ '\x7d' :: rest) := by
              rw [visible_append, hfront, ← visible_append, List.nil_append, List.singleton_append]
  | @closingBehind front rest _ _ _ _ _ ih =>
      calc
        visible (Text.trim front :: ['\x7d'] :: _).flatten
            = visible front ++ (visible ['\x7d'] ++ visible rest) := by
              rw [List.flatten_cons, List.flatten_cons, visible_append, visible_append,
                visible_trim, ih]
        _ = visible (front ++ '\x7d' :: rest) := by
              rw [← visible_append ['\x7d'], ← visible_append, List.singleton_append]

/-- Statements on one line, with a space between them. -/
def joined (stmts : List (List Char)) : List Char :=
  [' '].intercalate stmts

theorem exists_behind (s : List Char) (stmts : List (List Char)) :
    ∃ behind, joined (s :: stmts) = s ++ behind ∧ split behind = split (joined stmts) := by
  cases stmts with
  | nil =>
      exact ⟨[], by simp [joined], rfl⟩
  | cons next stmts =>
      refine ⟨' ' :: joined (next :: stmts), by simp [joined, List.intercalate_cons_cons], ?_⟩
      exact split_blanks_append (List.forall_mem_singleton.2 rfl) (joined (next :: stmts))

/-- Statements that are joined are cut where they were. -/
theorem Cuts.split_joined (h : Cuts cs stmts) : split (joined stmts) = stmts := by
  induction h with
  | blank _ =>
      rfl
  | @unbroken cs hcs hne =>
      have hjoined : joined [Text.trim cs] = Text.trim cs := List.intercalate_singleton
      rw [hjoined, split_trim, split_of_unbroken hcs, if_neg (mt List.isEmpty_iff.1 hne)]
  | @ended front rest t stmts hfront hstart ht _ ih =>
      have hend : isEnd t = true := isEnd_of_mark ht
      have hself : split (Text.trim (front ++ [t])) = [Text.trim (front ++ [t])] := by
        rw [split_trim, split_ended hfront hstart ht]
      -- without the blanks in front the statement still ends where nothing is open
      have hleft : Mode.after {} (Text.trimLeft front) = {} :=
        (Mode.trimLeft_spec front).1.trans hstart
      rcases exists_behind (Text.trim (front ++ [t])) stmts with ⟨behind, hjoined, hbehind⟩
      rw [hjoined, trim_concat hend, List.append_assoc, List.singleton_append,
        split_append_ended hleft hend, ← trim_concat hend, hself, hbehind, ih]
      rfl
  | @closing front rest stmts _ _ ih =>
      rcases exists_behind ['\x7d'] stmts with ⟨behind, hjoined, hbehind⟩
      have hcut : split ([] ++ '\x7d' :: behind) = split ([] ++ ['\x7d']) ++ split behind :=
        split_append_ended rfl rfl behind
      have hself : split ([] ++ ['\x7d']) = [['\x7d']] := split_closing rfl rfl
      rw [hjoined, List.singleton_append, ← List.nil_append ('\x7d' :: behind), hcut, hself,
        hbehind, ih]
      rfl
  | @closingBehind front rest stmts hfront hstart hne _ ih =>
      -- the brace ends the statement before it, with the space that was put between them
      have hspace : ∀ c ∈ [' '], Text.isBlank c = true := List.forall_mem_singleton.2 rfl
      have hmode : Mode.after {} (Text.trim front ++ [' ']) = {} := by
        rw [Mode.after_append, Mode.after_trim hstart]
        rfl
      have hunbroken : Mode.unbroken {} (Text.trim front ++ [' ']) = true := by
        rw [Mode.unbroken_append, Mode.unbroken_trim hfront, Mode.after_trim hstart]
        rfl
      have htrim : Text.trim (Text.trim front ++ [' ']) = Text.trim front := by
        rw [Text.trim_append_blanks hspace, Text.trim_trim]
      have hself : split (Text.trim front ++ [' '] ++ ['\x7d']) = [Text.trim front, ['\x7d']] := by
        rw [split_closing hunbroken hmode, htrim, if_neg (mt List.isEmpty_iff.1 hne)]
      rcases exists_behind ['\x7d'] stmts with ⟨behind, hjoined, hbehind⟩
      have hall : joined (Text.trim front :: ['\x7d'] :: stmts) =
          Text.trim front ++ [' '] ++ '\x7d' :: behind := by
        have hstep : joined (Text.trim front :: ['\x7d'] :: stmts) =
            Text.trim front ++ [' '] ++ joined (['\x7d'] :: stmts) := by
          simp [joined, List.intercalate_cons_cons]
        rw [hstep, hjoined, List.singleton_append]
      rw [hall, split_append_ended hmode rfl, hself, hbehind, ih]
      rfl

/-- Nothing but blanks is lost when a line is cut up, and what was cut stays as it is.  The code of
a line holds no comment, so that it is all code to the next reader, and the line is its code and its
comment around the mark.  The statements of a piece of code are trimmed and not empty, each is a
single piece, together they hold the code, and joined by spaces they are cut the same way again. -/
theorem splitting_lossless :
    (∀ line, Mode.Silent {} (splitComment line).1 ∧
      splitComment (splitComment line).1 = ((splitComment line).1, []) ∧
      (Mode.Silent {} line → splitComment line = (line, [])) ∧
      (¬ Mode.Silent {} line → ∃ gap gap' : List Char, (∀ c ∈ gap ++ gap', Text.isBlank c = true) ∧
        Text.trim line = (splitComment line).1 ++ gap ++ ['/', '/'] ++ gap' ++
          (splitComment line).2)) ∧
    ∀ code, (∀ s ∈ split code, s ≠ [] ∧ Text.trim s = s ∧ IsPiece s) ∧
      visible (split code).flatten = visible code ∧ split (joined (split code)) = split code := by
  refine ⟨fun line => ⟨silent_splitComment line, ?_, splitComment_of_silent, fun hmark => ?_⟩,
    fun code => ?_⟩
  · exact splitComment_of_silent (silent_splitComment line)
  · rcases splitComment_cases line with ⟨hsilent, -⟩ | ⟨code, comment, rfl, -, -, hsplit⟩
    · exact absurd hsilent hmark
    · rw [hsplit]
      exact exists_trim_eq code comment
  · have hcuts := cuts_split code
    refine ⟨fun s hs => ?_, hcuts.visible_flatten, hcuts.split_joined⟩
    have htrim := trim_of_mem_split hs
    exact ⟨htrim.2, htrim.1, hcuts.isPiece s hs⟩

/-- A line with the mark of a comment in a literal, and once more within its comment. -/
def markedLine : List Char :=
  "a = \"//\"; // b // c ".toList

/-- Code with an end in brackets, a statement that a closing brace cuts off, and a literal that is
left open. -/
def raggedCode : List Char :=
  " a [;] \x7d b \"\\".toList

theorem splitting_lossless_marks :
    (¬ Mode.Silent {} markedLine ∧ ∃ gap gap' : List Char,
      (∀ c ∈ gap ++ gap', Text.isBlank c = true) ∧
      Text.trim markedLine = "a = \"//\";".toList ++ gap ++ ['/', '/'] ++ gap' ++ "b // c".toList) ∧
    ("a [;]".toList ∈ split raggedCode ∧ IsPiece "a [;]".toList) ∧
    split (joined (split raggedCode)) = split raggedCode := by
  have hmark : ¬ Mode.Silent {} markedLine := by
    rw [← findComment_eq_none_iff]
    decide +kernel
  have hline := (splitting_lossless.1 markedLine).2.2.2 hmark
  have hparts : splitComment markedLine = ("a = \"//\";".toList, "b // c".toList) := by
    decide +kernel
  have hmem : "a [;]".toList ∈ split raggedCode := by
    decide +kernel
  have hcode := splitting_lossless.2 raggedCode
  rw [hparts] at hline
  exact ⟨⟨hmark, hline⟩, ⟨hmem, (hcode.1 _ hmem).2.2⟩, hcode.2.2⟩

end Statement
end ApiPages

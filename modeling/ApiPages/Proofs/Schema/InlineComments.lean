import ApiPages.Proofs.Schema.Tails
import ApiPages.Proofs.Text.Endings
import Mathlib.Data.List.Induction

/-!
# Block comments within a line

A block comment begins and ends with a line.  In front of the code of a line it makes a comment of
the whole line, and behind the code it is read as code.

* `Statement.Behind` is the place behind the last statement of a line;
* `Statement.Inert` says that a comment put there holds no end of a statement, `take_split_append`
  that it is passed over then;
* `Schema.undocumented_parse_comment` says what becomes of a text when a comment is put into a line.
-/

namespace ApiPages

namespace Statement

/-! ## Code behind a place -/

/-- The code of a piece of a line, up to the `//` of its comment. -/
def Mode.code (m : Mode) (cs : List Char) : List Char :=
  match m.comment? [] cs with
  | some (code, _) => code
  | none => cs

/-- No mark in the code ends a statement. -/
def Mode.unbroken (m : Mode) : List Char → Bool
  | [] => true
  | c :: rest => !(isEnd c && m.quote.isNone && m.brackets == 0) && (m.step c).unbroken rest

/-- Up to blanks, the code ends in `;` or in an opening brace. -/
def endsInMark (cs : List Char) : Bool :=
  let last := (Text.trimRight cs).getLast?
  last == some ';' || last == some '\x7b'

theorem Mode.unbroken_append (m : Mode) (front back : List Char) :
    m.unbroken (front ++ back) = (m.unbroken front && (m.after front).unbroken back) := by
  induction front generalizing m with
  | nil =>
      rfl
  | cons c front ih =>
      simp only [List.cons_append, unbroken, ih, after_cons, Bool.and_assoc]

/-- Code without an end is part of the statement being read. -/
theorem cut_append_of_unbroken {m : Mode} {front : List Char} (h : m.unbroken front = true)
    (current : List Char) (found : List (List Char)) (rest : List Char) :
    m.cut current found (front ++ rest) =
      (m.after front).cut (front.reverse ++ current) found rest := by
  induction front generalizing m current with
  | nil =>
      rfl
  | cons c front ih =>
      rw [Mode.unbroken, Bool.and_eq_true, Bool.not_eq_true'] at h
      rw [List.cons_append, Mode.cut, h.1, if_neg (by simp), ih h.2]
      simp

theorem cut_of_unbroken {m : Mode} {cs : List Char} (h : m.unbroken cs = true) (current : List Char)
    (found : List (List Char)) : m.cut current found cs = emit found (cs.reverse ++ current) := by
  have hcut := cut_append_of_unbroken h current found []
  rwa [List.append_nil] at hcut

/-- Code without an end is one statement, unless it is blank. -/
theorem split_of_unbroken {cs : List Char} (h : Mode.unbroken {} cs = true) :
    split cs = if (Text.trim cs).isEmpty then [] else [Text.trim cs] := by
  rw [split_eq_cut, cut_of_unbroken h, emit, List.append_nil, List.reverse_reverse]
  split
  · rfl
  · rfl

/-- The last statement of a piece of code begins where the one before it ended. -/
theorem exists_last_statement (cs : List Char) :
    ∃ front rest, cs = front ++ rest ∧ Mode.after {} front = {} ∧
    Mode.unbroken {} rest = true ∧ ∀ more, split (front ++ more) = split front ++ split more := by
  induction cs using List.reverseRecOn with
  | nil =>
      exact ⟨[], [], rfl, rfl, rfl, fun _ => rfl⟩
  | append_singleton cs c ih =>
      by_cases hend :
        (isEnd c && (Mode.after {} cs).quote.isNone && (Mode.after {} cs).brackets == 0) = true
      · simp only [Bool.and_eq_true, Option.isNone_iff_eq_none, beq_iff_eq] at hend
        rcases hend with ⟨⟨hc, hquote⟩, hbrackets⟩
        have hstart := Mode.after_eq_start hquote hbrackets
        refine ⟨cs ++ [c], [], (List.append_nil _).symm, ?_, rfl, fun more => ?_⟩
        · rw [Mode.after_append, hstart]
          exact step_of_isEnd hc
        · rw [List.append_assoc]
          exact split_append_ended hstart hc more
      · rcases ih with ⟨front, rest, rfl, hfront, hrest, hsplit⟩
        refine ⟨front, rest ++ [c], List.append_assoc .., hfront, ?_, hsplit⟩
        rw [Mode.after_append, hfront] at hend
        rw [Mode.unbroken_append, hrest, Bool.true_and, Mode.unbroken, Mode.unbroken, Bool.and_true,
          Bool.not_eq_true']
        exact Bool.eq_false_iff.2 hend

/-- The code ends where its last statement does, with nothing but blanks behind. -/
def IsDone (cs : List Char) : Prop :=
  ∃ front t blanks, cs = front ++ t :: blanks ∧ isEnd t = true ∧ Mode.after {} front = {} ∧
    ∀ c ∈ blanks, Text.isBlank c = true

theorem getLast?_of_endsInMark {cs : List Char} (h : endsInMark cs = false) :
    (Text.trimRight cs).getLast? ≠ some ';' ∧ (Text.trimRight cs).getLast? ≠ some '\x7b' := by
  simpa [endsInMark] using h

variable {t : List Char}

/-- Code that begins with a slash is passed over. -/
theorem take_split_slash (r : Reader) {blanks : List Char}
    (hblanks : ∀ c ∈ blanks, Text.isBlank c = true) (hunbroken : Mode.unbroken {} ('/' :: t) = true)
    (hend : endsInMark ('/' :: t) = false) :
    r.take (split (blanks ++ '/' :: t)) = r := by
  have htrim : Text.trim ('/' :: t) = '/' :: Text.trimRight t := Text.trimRight_cons (by decide) t
  have hlast := getLast?_of_endsInMark hend
  rw [Text.trimRight_cons (by decide)] at hlast
  rw [split_blanks_append hblanks, split_of_unbroken hunbroken, htrim]
  show (r.statement _).1 = r
  rw [Reader.statement_slash r hlast.2]

/-- Blanks close no literal. -/
theorem closed_trim {cs : List Char} (h : (Mode.after {} cs).quote = none) :
    Recognize.Closed (Text.trim cs) := by
  rcases Text.exists_append_trim cs with ⟨before, after, hcs, hbefore, hafter⟩
  unfold Recognize.Closed
  cases hopen : (Mode.after {} (Text.trim cs)).quote with
  | none =>
      rfl
  | some q =>
      have hq : isQuote q = true := Mode.isQuote_after (by simp) _ q hopen
      have hmem : q ∉ after := by
        intro hmem
        have hne := Text.ne_of_class (hafter q hmem) (by decide : Text.isBlank '"' = false)
        have hne' := Text.ne_of_class (hafter q hmem) (by decide : Text.isBlank '\'' = false)
        simp [isQuote, hne, hne'] at hq
      rw [hcs, Mode.after_append, Mode.after_append, after_blanks rfl hbefore,
        Mode.quote_after_of_not_mem hmem hopen] at h
      cases h

/-- A closing brace outside brackets is an end. -/
theorem trim_ne_closing {cs : List Char} (h : Mode.unbroken {} cs = true) :
    Text.trim cs ≠ ['\x7d'] := by
  intro htrim
  rcases Text.exists_append_trim cs with ⟨before, after, hcs, hbefore, -⟩
  rw [hcs, htrim, Mode.unbroken_append, Mode.unbroken_append, after_blanks rfl hbefore] at h
  simp [Mode.unbroken, isEnd] at h

/-- The open statement takes the code behind it as its tail. -/
theorem statement_trim_append (r : Reader) {rest : List Char} (hne : Text.trim rest ≠ [])
    (hquote : (Mode.after {} rest).quote = none) (hrest : Mode.unbroken {} rest = true)
    (hopen : endsInMark rest = false) (hend : endsInMark ('/' :: t) = false) (hparen : ')' ∉ t) :
    r.statement (Text.trim (rest ++ '/' :: t)) = r.statement (Text.trim rest) := by
  rcases Text.exists_trimLeft rest with ⟨blanks, hleft, hblanks⟩
  have hslash : Text.trimRight ('/' :: t) = '/' :: Text.trimRight t :=
    Text.trimRight_cons (by decide) t
  have hright : Text.trimRight ('/' :: t) ≠ [] := by
    rw [hslash]
    exact List.cons_ne_nil _ _
  have htrim : Text.trim (rest ++ '/' :: t) =
      Text.trim rest ++ (blanks ++ '/' :: Text.trimRight t) := by
    rw [Text.trim, Text.trimLeft_append (Text.trimLeft_ne_nil hne), Text.trimRight_append hright,
      hleft, hslash, List.append_assoc]
  have hlast : (Text.trim rest ++ (blanks ++ '/' :: Text.trimRight t)).getLast? =
      (Text.trimRight ('/' :: t)).getLast? := by
    rw [hslash, ← List.append_assoc, List.getLast?_append_of_ne_nil _ (List.cons_ne_nil _ _)]
  rw [htrim]
  refine Reader.statement_append_tail r (closed_trim hquote)
    ⟨blanks, Text.trimRight t, rfl, hblanks, ?_⟩
    (trim_ne_closing hrest) ?_ ?_
  · exact fun hmem => hparen (Text.mem_of_mem_trimRight hmem)
  · rw [← Text.getLast?_trimRight hne []]
    exact getLast?_of_endsInMark hopen
  · rw [hlast]
    exact getLast?_of_endsInMark hend

/-- Behind a statement, code that begins with a slash is passed over. -/
theorem take_split_append (r : Reader) {pre : List Char} (hquote : (Mode.after {} pre).quote = none)
    (hunbroken : (Mode.after {} pre).unbroken ('/' :: t) = true)
    (hend : endsInMark ('/' :: t) = false)
    (hplace : IsDone pre ∨ endsInMark pre = false ∧ ')' ∉ t) :
    r.take (split (pre ++ '/' :: t)) = r.take (split pre) := by
  rcases hplace with ⟨front, e, blanks, rfl, he, hfront, hblanks⟩ | ⟨hopen, hparen⟩
  · -- the statement is ended, and what follows is another one
    have hmode : Mode.after {} (front ++ e :: blanks) = {} := by
      rw [Mode.after_append, hfront, Mode.after_cons, step_of_isEnd he, after_blanks rfl hblanks]
    rw [hmode] at hunbroken
    rw [List.append_assoc, List.cons_append, split_append_ended hfront he,
      split_append_ended hfront he blanks, split_of_blank hblanks, List.append_nil,
      Reader.take_append, take_split_slash _ hblanks hunbroken hend]
  · rcases exists_last_statement pre with ⟨front, rest, rfl, hfront, hrest, hsplit⟩
    rw [Mode.after_append, hfront] at hquote hunbroken
    rw [List.append_assoc, hsplit, hsplit rest, Reader.take_append, Reader.take_append]
    generalize r.take (split front) = r
    by_cases hne : Text.trim rest = []
    · have hblanks := Text.all_isBlank_of_trim_eq_nil hne
      rw [after_blanks rfl hblanks] at hunbroken
      rw [split_of_blank hblanks, take_split_slash r hblanks hunbroken hend]
      rfl
    · have hboth : Mode.unbroken {} (rest ++ '/' :: t) = true := by
        rw [Mode.unbroken_append, hrest, hunbroken]
        rfl
      have hmark : endsInMark rest = false := by
        unfold endsInMark at hopen ⊢
        rwa [Text.getLast?_trimRight hne, ← Text.getLast?_trimRight hne []] at hopen
      have hstep := statement_trim_append r hne hquote hrest hmark hend hparen
      have hne' : Text.trim (rest ++ '/' :: t) ≠ [] := by
        intro hnil
        have hslash := Text.all_isBlank_of_trim_eq_nil hnil '/' (by simp)
        revert hslash
        decide
      rw [split_of_unbroken hrest, split_of_unbroken hboth, if_neg (by simpa using hne'),
        if_neg (by simpa using hne)]
      exact congrArg Prod.fst hstep

/-! ## Lines -/

/-- The place behind the last statement of a line of code: `pre` stands before it, `post` after
it. -/
structure Behind (pre post : List Char) : Prop where
  /-- There is code before it, which begins no block comment. -/
  code : Text.trim pre ≠ []
  noBlockComment : ¬['/', '*'] <+: Text.trimLeft pre
  /-- No comment begins before it. -/
  silent : Mode.Silent {} pre
  outside : (Mode.after {} pre).quote = none
  /-- A slash there would make a `//` of the next one. -/
  noSlash : pre.getLast? ≠ some '/'
  /-- No code follows. -/
  last : ∀ c ∈ (Mode.after {} pre).code post, Text.isBlank c = true

/-- The code of a line is cut at its first `//`, and what stands before that is kept. -/
theorem code_append {pre : List Char} (hsilent : Mode.Silent {} pre)
    (hslash : pre.getLast? ≠ some '/') (post : List Char) :
    Mode.code {} (pre ++ post) = pre ++ (Mode.after {} pre).code post := by
  have hnone := (comment?_eq_none_iff {} [] pre).2 hsilent
  unfold Mode.code
  rw [comment?_append hnone hslash, comment?_map]
  cases (Mode.after {} pre).comment? [] post with
  | none =>
      rfl
  | some parts =>
      simp

/-- Blanks around the line do not matter. -/
theorem split_splitComment_trim (raw : List Char) :
    split (splitComment (Text.trim raw)).1 = split (Mode.code {} raw) := by
  rcases Text.exists_append_trim raw with ⟨before, after, hraw, hbefore, hafter⟩
  have hcomment : Mode.comment? {} [] raw =
      (Mode.comment? {} [] (Text.trim raw)).map fun parts =>
        (before ++ parts.1, parts.2 ++ after) := by
    conv_lhs => rw [hraw]
    rw [List.append_assoc, comment?_blanks_append rfl hbefore, comment?_append_blanks _ hafter,
      comment?_map]
    simp [Function.comp_def]
  have hfind := findComment_eq_comment? {} rfl [] (Text.trim raw)
  unfold splitComment Mode.code
  rw [hcomment, hfind]
  cases Mode.comment? {} [] (Text.trim raw) with
  | none =>
      exact split_trim raw
  | some parts =>
      exact (split_trim parts.1).trans (split_blanks_append hbefore parts.1).symm

/-- What a line begins with stands before the place. -/
theorem Behind.begins_trimLeft {pre post : List Char} (h : Behind pre post) {d : Char}
    {cs : List Char} (hbegins : ['/', d] <+: Text.trimLeft (pre ++ cs)) :
    ['/', d] <+: Text.trimLeft pre := by
  have hne := Text.trimLeft_ne_nil h.code
  rw [Text.trimLeft_append hne] at hbegins
  rcases hbegins with ⟨rest, hrest⟩
  cases hleft : Text.trimLeft pre with
  | nil =>
      exact absurd hleft hne
  | cons c more =>
      rw [hleft] at hrest
      injection hrest with hc hmore
      subst hc
      cases more with
      | nil =>
          -- the slash would be the last character before the place
          have hpre : pre = pre.takeWhile Text.isBlank ++ ['/'] := by
            rw [← hleft]
            exact List.takeWhile_append_dropWhile.symm
          refine absurd ?_ h.noSlash
          rw [hpre]
          simp
      | cons e more =>
          injection hmore with he
          subst he
          exact ⟨more, rfl⟩

theorem Behind.noSlashes {pre post : List Char} (h : Behind pre post) :
    ¬['/', '/'] <+: Text.trimLeft pre := by
  rintro ⟨back, hback⟩
  have hpre : pre = pre.takeWhile Text.isBlank ++ '/' :: '/' :: back := by
    conv_lhs => rw [← List.takeWhile_append_dropWhile (p := Text.isBlank) (l := pre)]
    rw [← Text.trimLeft, ← hback]
    rfl
  refine h.silent _ back hpre ?_
  rw [after_blanks rfl fun c hc => List.mem_takeWhile_imp hc]

/-- A block comment. -/
def blockComment (body : List Char) : List Char :=
  '/' :: '*' :: (body ++ ['*', '/'])

/-- What is put behind a statement holds no end of one. -/
structure Inert (m : Mode) (cs : List Char) : Prop where
  unbroken : m.unbroken (m.code cs) = true
  noMark : endsInMark (m.code cs) = false

theorem exists_code_blockComment (m : Mode) (body post : List Char) :
    ∃ t, m.code (blockComment body ++ post) = '/' :: t := by
  unfold blockComment Mode.code
  rw [List.cons_append, List.cons_append, Mode.comment?.eq_2, if_neg (by simp), comment?_map]
  cases (m.step '/').comment? [] ('*' :: (body ++ ['*', '/'] ++ post)) with
  | none =>
      exact ⟨_, rfl⟩
  | some parts =>
      exact ⟨parts.1, rfl⟩

/-- Behind the last statement of a line, the comment is passed over. -/
theorem Behind.take_blockComment {pre post body : List Char} (h : Behind pre post)
    (hinert : Inert (Mode.after {} pre) (blockComment body ++ post))
    (hplace : IsDone pre ∨ endsInMark pre = false ∧
      ')' ∉ (Mode.after {} pre).code (blockComment body ++ post))
    (r : Reader) :
    r.take (split (splitComment (Text.trim (pre ++ (blockComment body ++ post)))).1) =
      r.take (split (splitComment (Text.trim (pre ++ post))).1) := by
  rcases exists_code_blockComment (Mode.after {} pre) body post with ⟨t, ht⟩
  rcases hinert with ⟨hunbroken, hmark⟩
  rw [ht] at hunbroken hmark hplace
  rw [split_splitComment_trim, split_splitComment_trim, code_append h.silent h.noSlash,
    code_append h.silent h.noSlash, split_append_blanks h.last, ht]
  refine take_split_append r h.outside hunbroken hmark (hplace.imp_right fun hopen => ⟨hopen.1, ?_⟩)
  exact fun hmem => hopen.2 (List.mem_cons_of_mem _ hmem)

end Statement

/-! ## Texts -/

namespace Schema

open Statement (Mode Behind Inert IsDone endsInMark blockComment)

theorem codeLines_behind {pre post : List Char} (h : Behind pre post) (cs : List Char)
    (lines : List (List Char)) :
    codeLines false ((pre ++ cs) :: lines) = Text.trim (pre ++ cs) :: codeLines false lines := by
  rcases Text.exists_trimLeft (pre ++ cs) with ⟨after, hleft, -⟩
  have hblank : Text.trim (pre ++ cs) ≠ [] := by
    intro hnil
    have hpre : ∀ c ∈ pre, Text.isBlank c = true := fun c hc =>
      Text.all_isBlank_of_trim_eq_nil hnil c (List.mem_append_left _ hc)
    have htrim := Text.trim_append_left hpre []
    rw [List.append_nil] at htrim
    exact h.code htrim
  have hcomment : ∀ comment, Text.trim (pre ++ cs) ≠ '/' :: '/' :: comment := by
    intro comment htrim
    rw [htrim] at hleft
    exact h.noSlashes (h.begins_trimLeft ⟨_, hleft.symm⟩)
  have hopen : ∀ comment, Text.trim (pre ++ cs) ≠ '/' :: '*' :: comment := by
    intro comment htrim
    rw [htrim] at hleft
    exact h.noBlockComment (h.begins_trimLeft ⟨_, hleft.symm⟩)
  simp only [codeLines]

/-- A line that begins with a block comment holds no code. -/
theorem codeLines_blockComment {pre : List Char} (hpre : ∀ c ∈ pre, Text.isBlank c = true)
    (body post : List Char) (lines : List (List Char)) :
    codeLines false ((pre ++ (blockComment body ++ post)) :: lines) = codeLines false lines := by
  have hend : Text.trimRight (['*', '/'] ++ post) = ['*', '/'] ++ Text.trimRight post := by
    show Text.trimRight ('*' :: '/' :: post) = '*' :: '/' :: Text.trimRight post
    rw [Text.trimRight_cons (by decide), Text.trimRight_cons (by decide)]
  have hbody : Text.trimRight (body ++ ['*', '/'] ++ post) =
      body ++ ['*', '/'] ++ Text.trimRight post := by
    rw [List.append_assoc, List.append_assoc, Text.trimRight_append (by rw [hend]; simp), hend]
  have htrim : Text.trim (pre ++ (blockComment body ++ post)) =
      '/' :: '*' :: (body ++ ['*', '/'] ++ Text.trimRight post) := by
    rw [Text.trim_append_left hpre, ← hbody]
    show Text.trimRight ('/' :: '*' :: (body ++ ['*', '/'] ++ post)) = _
    rw [Text.trimRight_cons (by decide), Text.trimRight_cons (by decide)]
  simp only [codeLines, htrim, Text.occurs_append, Bool.not_true]

/-- A line can be exchanged for another one whose statements do the same. -/
theorem undocumented_ofLines_congr {before after : List (List Char)} {raw raw' : List Char}
    (houtside : (before.foldl Reader.line {}).inComment = false)
    (h : ∀ r : Reader, r.take (statementsOf (codeLines false (raw :: after))) =
      r.take (statementsOf (codeLines false (raw' :: after)))) :
    (ofLines (before ++ raw :: after)).undocumented =
      (ofLines (before ++ raw' :: after)).undocumented := by
  have hread : ∀ raw, (ofLines (before ++ raw :: after)).undocumented =
      ((before.foldl Reader.line {}).bare.take
        (statementsOf (codeLines false (raw :: after)))).finish := by
    intro raw
    rw [ofLines, undocumented_finish, List.foldl_append, bare_foldl_line, houtside]
  rw [hread, hread, h]

/-- The text of some lines. -/
def joined (lines : List (List Char)) : String :=
  String.ofList (['\n'].intercalate lines)

theorem parse_joined {lines : List (List Char)} (h : ∀ line ∈ lines, '\n' ∉ line)
    (hne : lines ≠ []) :
    parse (joined lines) = ofLines lines := by
  rw [parse, joined, String.toList_ofList, List.splitOn_intercalate '\n' h hne]

/-- In front of the code of a line, a block comment makes the line a comment, and nothing of its
code is read.  Behind the code, it changes nothing but documentation, when it holds no end of a
statement. -/
theorem undocumented_parse_comment {text : String} {before after : List (List Char)}
    {pre body post : List Char}
    (hlines : text.toList.splitOn '\n' = before ++ (pre ++ post) :: after)
    (houtside : (before.foldl Reader.line {}).inComment = false) (hbody : '\n' ∉ body) :
    ((∀ c ∈ pre, Text.isBlank c = true) →
      (parse (joined (before ++ (pre ++ (blockComment body ++ post)) :: after))).undocumented =
        (parse (joined (before ++ [] :: after))).undocumented) ∧
    (Behind pre post → Inert (Mode.after {} pre) (blockComment body ++ post) →
      (IsDone pre ∨ endsInMark pre = false ∧
        ')' ∉ (Mode.after {} pre).code (blockComment body ++ post)) →
      (parse (joined (before ++ (pre ++ (blockComment body ++ post)) :: after))).undocumented =
        (parse text).undocumented) := by
  have hfree := Text.not_mem_of_mem_splitOn '\n' text.toList
  rw [hlines, List.forall_mem_append, List.forall_mem_cons] at hfree
  rcases hfree with ⟨hbefore, hline, hafter⟩
  have hcomment : ∀ line ∈ before ++ (pre ++ (blockComment body ++ post)) :: after,
      '\n' ∉ line := by
    refine List.forall_mem_append.2 ⟨hbefore, List.forall_mem_cons.2 ⟨?_, hafter⟩⟩
    rw [List.mem_append, not_or] at hline
    simp [blockComment, hline.1, hline.2, hbody]
  have hblank : ∀ line ∈ before ++ [] :: after, '\n' ∉ line :=
    List.forall_mem_append.2 ⟨hbefore, List.forall_mem_cons.2 ⟨by simp, hafter⟩⟩
  rw [parse_joined hcomment (by simp)]
  constructor
  · intro hpre
    rw [parse_joined hblank (by simp)]
    refine undocumented_ofLines_congr houtside fun r => ?_
    rw [codeLines_blockComment hpre]
    rfl
  · intro hbehind hinert hplace
    rw [parse, hlines]
    refine undocumented_ofLines_congr houtside fun r => ?_
    rw [codeLines_behind hbehind, codeLines_behind hbehind]
    show r.take (_ ++ statementsOf _) = r.take (_ ++ statementsOf _)
    rw [Reader.take_append, Reader.take_append, hbehind.take_blockComment hinert hplace]

def fieldHeader : List Char :=
  "message A \x7b".toList

def fieldCode : List Char :=
  "int32 a = 1;".toList

def fieldNote : List Char :=
  " // One.".toList

/-- A message with one field. -/
def fieldLines : List (List Char) :=
  [fieldHeader] ++ (fieldCode ++ fieldNote) :: [['\x7d']]

/-- The brace stands within a literal. -/
def fieldRemark : List Char :=
  "\"\x7d\"".toList

theorem undocumented_parse_comment_field :
    (parse (joined
      ([fieldHeader] ++ ([] ++ (blockComment fieldRemark ++ (fieldCode ++ fieldNote))) ::
        [['\x7d']]))).undocumented =
          (parse (joined ([fieldHeader] ++ [] :: [['\x7d']]))).undocumented ∧
      (parse (joined ([fieldHeader] ++ (fieldCode ++ (blockComment fieldRemark ++ fieldNote)) ::
        [['\x7d']]))).undocumented = (parse (joined fieldLines)).undocumented := by
  have hlines : (joined fieldLines).toList.splitOn '\n' =
      [fieldHeader] ++ (fieldCode ++ fieldNote) :: [['\x7d']] := by
    decide +kernel
  have houtside : ([fieldHeader].foldl Reader.line {}).inComment = false := by
    decide +kernel
  have hfree : '\n' ∉ fieldRemark := by
    decide
  have hbehind : Behind fieldCode fieldNote :=
    { code := by decide
      noBlockComment := by decide
      silent := (Statement.comment?_eq_none_iff {} [] _).1 (by decide)
      outside := by decide
      noSlash := by decide
      last := List.all_eq_true.1 (by decide +kernel) }
  have hinert : Inert (Mode.after {} fieldCode) (blockComment fieldRemark ++ fieldNote) :=
    { unbroken := by decide
      noMark := by decide }
  have hdone : IsDone fieldCode :=
    ⟨"int32 a = 1".toList, ';', [], by decide, by decide, by decide, by simp⟩
  -- in front of the line there is nothing, in the second case all its code
  have hfront : (joined fieldLines).toList.splitOn '\n' =
      [fieldHeader] ++ ([] ++ (fieldCode ++ fieldNote)) :: [['\x7d']] := hlines
  exact ⟨(undocumented_parse_comment hfront houtside hfree).1 (by simp),
    (undocumented_parse_comment hlines houtside hfree).2 hbehind hinert (.inl hdone)⟩

/-- A comment in front of code takes it along, a mark in a comment is an end, and an open statement
may lack its parenthesis.  Code that ends in a mark within brackets or a literal, or in a slash, is
other code with a comment behind it. -/
theorem comment_changes_code :
    (parse "/*c*/message A \x7b\n\x7d").undocumented ≠ (parse "message A \x7b\n\x7d").undocumented ∧
    (parse "package p;/*;package q*/").undocumented ≠ (parse "package p;").undocumented ∧
    (parse "service S \x7b\nrpc A(B) returns (C/*)*/\n\x7d").undocumented ≠
      (parse "service S \x7b\nrpc A(B) returns (C\n\x7d").undocumented ∧
    (parse "message A \x7b\nint32 a = 1 [[];/*c*/\n\x7d").undocumented ≠
      (parse "message A \x7b\nint32 a = 1 [[];\n\x7d").undocumented ∧
    (parse "message A \x7b\nint32 a = 1 [\"];/*c*/\n\x7d").undocumented ≠
      (parse "message A \x7b\nint32 a = 1 [\"];\n\x7d").undocumented ∧
    (parse "message A \x7b\nint32 a = 1 [[];//*c*/\n\x7d").undocumented ≠
      (parse "message A \x7b\nint32 a = 1 [[];/\n\x7d").undocumented := by
  refine ⟨?_, ?_, ?_, ?_, ?_, ?_⟩
  all_goals decide +kernel

end Schema
end ApiPages

import ApiPages.Proofs.Text.Blank
import ApiPages.Schema.Statement
import Mathlib.Tactic.SplitIfs

/-!
# Statement boundaries

The scanner for statements and the one for comments read the same characters the same way.  A `Mode`
is what they know at a place of a line: the literal that is open, whether the next character is
hidden by a backslash, and the number of open option brackets.

* `Mode.after` is the mode after a piece of code, one character at a time;
* `scan_eq_cut` and `findComment_eq_comment?` describe both scanners by modes;
* `split_append_ended` says that code is cut in two where a statement ends and nothing is open;
* `findComment_eq_none_iff` says which pieces of code hold no comment;
* `split_trim` says that blanks around the code do not matter.
-/

namespace ApiPages
namespace Statement

/-! ## Modes -/

structure Mode where
  /-- The quote that closes the literal being read. -/
  quote : Option Char := none
  /-- Whether a backslash hides the next character. -/
  escaped : Bool := false
  /-- The number of open option brackets. -/
  brackets : Nat := 0
  deriving DecidableEq, Repr

namespace Mode

def step (m : Mode) (c : Char) : Mode :=
  match m.quote with
  | some q =>
      if m.escaped then { m with escaped := false }
      else if c == '\\' then { m with escaped := true }
      else if c == q then { m with quote := none }
      else m
  | none =>
      if isQuote c then { m with quote := some c }
      else if c == '[' then { m with brackets := m.brackets + 1 }
      else if c == ']' then { m with brackets := m.brackets - 1 }
      else m

def after (m : Mode) (cs : List Char) : Mode :=
  cs.foldl step m

@[simp]
theorem after_nil (m : Mode) : m.after [] = m :=
  rfl

@[simp]
theorem after_cons (m : Mode) (c : Char) (cs : List Char) :
    m.after (c :: cs) = (m.step c).after cs :=
  rfl

theorem after_append (m : Mode) (cs ds : List Char) : m.after (cs ++ ds) = (m.after cs).after ds :=
  List.foldl_append

/-- Only characters of a literal are hidden. -/
theorem escaped_step {m : Mode} (h : m.quote = none → m.escaped = false) (c : Char) :
    (m.step c).quote = none → (m.step c).escaped = false := by
  unfold step
  grind

theorem escaped_after {m : Mode} (h : m.quote = none → m.escaped = false) (cs : List Char) :
    (m.after cs).quote = none → (m.after cs).escaped = false := by
  induction cs generalizing m with
  | nil =>
      exact h
  | cons c cs ih =>
      exact ih (escaped_step h c)

/-- Without an open literal or bracket the scanners are as they were at the start. -/
theorem after_eq_start {cs : List Char} (hquote : (after {} cs).quote = none)
    (hbrackets : (after {} cs).brackets = 0) : after {} cs = {} := by
  have hescaped := escaped_after (m := {}) (fun _ => rfl) cs hquote
  cases hmode : after {} cs with
  | mk quote escaped brackets =>
      rw [hmode] at hquote hbrackets hescaped
      cases hquote
      cases hbrackets
      cases hescaped
      rfl

/-! ### Literals -/

/-- Brackets do not matter to literals. -/
theorem literal_step {m m' : Mode} (hquote : m.quote = m'.quote) (hescaped : m.escaped = m'.escaped)
    (c : Char) :
    (m.step c).quote = (m'.step c).quote ∧ (m.step c).escaped = (m'.step c).escaped := by
  rcases m with ⟨quote, escaped, brackets⟩
  rcases m' with ⟨quote', escaped', brackets'⟩
  obtain rfl : quote = quote' := hquote
  obtain rfl : escaped = escaped' := hescaped
  unfold step
  cases quote with
  | _ =>
      dsimp only
      split_ifs
      all_goals exact ⟨rfl, rfl⟩

theorem quote_after {m m' : Mode} (hquote : m.quote = m'.quote) (hescaped : m.escaped = m'.escaped)
    (cs : List Char) : (m.after cs).quote = (m'.after cs).quote := by
  induction cs generalizing m m' with
  | nil =>
      exact hquote
  | cons c cs ih =>
      rcases literal_step hquote hescaped c with ⟨hq, he⟩
      exact ih hq he

/-- Text without quotes opens no literal. -/
theorem quote_step {m : Mode} (hquote : m.quote = none) {c : Char} (hc : isQuote c = false) :
    (m.step c).quote = none ∧ (m.step c).escaped = m.escaped := by
  rcases m with ⟨quote, escaped, brackets⟩
  obtain rfl : quote = none := hquote
  unfold step
  simp only [hc, Bool.false_eq_true, if_false]
  split_ifs
  all_goals exact ⟨rfl, rfl⟩

/-- A literal that is not ended by its quote stays open. -/
theorem quote_after_of_not_mem {q : Char} {cs : List Char} (h : q ∉ cs) {m : Mode}
    (hm : m.quote = some q) :
    (m.after cs).quote = some q := by
  induction cs generalizing m with
  | nil =>
      exact hm
  | cons c cs ih =>
      have hc : c ≠ q := fun hc => h (hc ▸ List.mem_cons_self ..)
      refine ih (fun hq => h (List.mem_cons_of_mem c hq)) ?_
      rcases m with ⟨quote, escaped, brackets⟩
      obtain rfl : quote = some q := hm
      unfold step
      dsimp only
      split_ifs with _ _ hq
      · rfl
      · rfl
      · exact absurd (eq_of_beq hq) hc
      · rfl

/-- Only quotes open a literal. -/
theorem isQuote_step {m : Mode} (h : ∀ q, m.quote = some q → isQuote q = true) (c : Char) :
    ∀ q, (m.step c).quote = some q → isQuote q = true := by
  unfold step
  grind

theorem isQuote_after {m : Mode} (h : ∀ q, m.quote = some q → isQuote q = true) (cs : List Char) :
    ∀ q, (m.after cs).quote = some q → isQuote q = true := by
  induction cs generalizing m with
  | nil =>
      exact h
  | cons c cs ih =>
      exact ih (isQuote_step h c)

end Mode

/-! ## The scanner for statements -/

/-- The characters that end a statement. -/
def isEnd (c : Char) : Bool :=
  c == ';' || c == '\x7b' || c == '\x7d'

/-- The statements found after a character that ends one. -/
def ended (found : List (List Char)) (current : List Char) (c : Char) : List (List Char) :=
  if c == '\x7d' then emit (emit found current) [c] else emit found (c :: current)

/-- The scanner for statements, one character at a time. -/
def Mode.cut (m : Mode) (current : List Char) (found : List (List Char)) :
    List Char → List (List Char)
  | [] => emit found current
  | c :: rest =>
      if isEnd c && m.quote.isNone && m.brackets ==
        0 then (m.step c).cut [] (ended found current c) rest
      else (m.step c).cut (c :: current) found rest

theorem scan_eq_cut (m : Mode) (h : m.escaped = false) (current : List Char)
    (found : List (List Char)) (cs : List Char) :
    scan m.quote m.brackets current found cs = m.cut current found cs := by
  rcases m with ⟨quote, escaped, brackets⟩
  obtain rfl : escaped = false := h
  dsimp only
  -- by the recursion of the scanner, which takes a backslash and what it hides in one step; the
  -- modes take two, so the hypothesis speaks of a mode in which nothing is hidden
  fun_induction scan quote brackets current found cs with
  | case1 =>
      rfl
  | case2 brackets current found c q hc =>
      simp_all [Mode.cut]
  | case3 brackets current found c q hc d rest ih =>
      simp_all [Mode.cut, Mode.step]
  | case4 brackets current found c rest q hc ih =>
      rw [ih]
      by_cases hq : c = q
      · simp_all [Mode.cut, Mode.step]
      · simp_all [Mode.cut, Mode.step]
  | case5 brackets current found c rest hq ih =>
      rw [ih]
      have hend : isEnd c = false := by
        simp [isQuote] at hq
        rcases hq with rfl | rfl
        · rfl
        · rfl
      simp [Mode.cut, Mode.step, hq, hend]
  | case6 brackets current found c rest hq hc ih =>
      rw [ih]
      obtain rfl := eq_of_beq hc
      simp [Mode.cut, Mode.step, isEnd, isQuote]
  | case7 brackets current found c rest hq hopen hc ih =>
      rw [ih]
      obtain rfl := eq_of_beq hc
      simp [Mode.cut, Mode.step, isEnd, isQuote]
  | case8 brackets current found c rest hq hopen hclose hend ih =>
      rw [ih]
      simp only [Bool.and_eq_true, Bool.or_eq_true, beq_iff_eq] at hend
      rcases hend with ⟨rfl | rfl, rfl⟩
      · rfl
      · rfl
  | case9 brackets current found c rest hq hopen hclose hend hbrace ih =>
      rw [ih]
      simp only [Bool.and_eq_true, beq_iff_eq] at hbrace
      rcases hbrace with ⟨rfl, rfl⟩
      rfl
  | case10 brackets current found c rest hq hopen hclose hend hbrace ih =>
      rw [ih]
      have hpass : (isEnd c && brackets == 0) = false := by
        grind [isEnd]
      simp_all [Mode.cut, Mode.step]

theorem split_eq_cut (cs : List Char) : split cs = (Mode.cut {} [] [] cs).reverse := by
  rw [split, ← scan_eq_cut {} rfl]

theorem emit_eq_append (found : List (List Char)) (reversed : List Char) :
    emit found reversed = emit [] reversed ++ found := by
  unfold emit
  dsimp only
  split
  · rfl
  · rfl

theorem ended_eq_append (found : List (List Char)) (current : List Char) (c : Char) :
    ended found current c = ended [] current c ++ found := by
  unfold ended
  split
  · rw [emit_eq_append, emit_eq_append found, emit_eq_append (emit [] current), List.append_assoc]
  · exact emit_eq_append _ _

/-- What was found before stays in front. -/
theorem cut_eq_append (m : Mode) (current : List Char) (found : List (List Char)) (cs : List Char) :
    m.cut current found cs = m.cut current [] cs ++ found := by
  induction cs generalizing m current found with
  | nil =>
      exact emit_eq_append _ _
  | cons c cs ih =>
      unfold Mode.cut
      split
      · rw [ih, ih _ _ (ended [] current c), ended_eq_append found, List.append_assoc]
      · exact ih _ _ _

theorem step_of_isEnd {t : Char} (h : isEnd t = true) : Mode.step {} t = {} := by
  simp only [isEnd, Bool.or_eq_true, beq_iff_eq] at h
  rcases h with (rfl | rfl) | rfl
  · rfl
  · rfl
  · rfl

/-- A statement that ends where nothing is open leaves the scanner as it was at the start. -/
theorem cut_append_ended {m : Mode} {front : List Char} (h : m.after front = {}) {t : Char}
    (ht : isEnd t = true) (current : List Char) (found : List (List Char)) (rest : List Char) :
    m.cut current found (front ++ t :: rest) =
      Mode.cut {} [] (m.cut current found (front ++ [t])) rest := by
  induction front generalizing m current found with
  | nil =>
      obtain rfl : m = {} := h
      simp [Mode.cut, ht, step_of_isEnd ht]
      rfl
  | cons c front ih =>
      rw [List.cons_append, List.cons_append, Mode.cut.eq_2, Mode.cut.eq_2 m]
      split
      · exact ih h _ _
      · exact ih h _ _

/-- Code is cut in two where a statement ends and nothing is open. -/
theorem split_append_ended {front : List Char} (h : Mode.after {} front = {}) {t : Char}
    (ht : isEnd t = true) (rest : List Char) :
    split (front ++ t :: rest) = split (front ++ [t]) ++ split rest := by
  rw [split_eq_cut, split_eq_cut, split_eq_cut, cut_append_ended h ht, cut_eq_append,
    List.reverse_append]

/-! ## The scanner for comments -/

/-- The scanner for comments, one character at a time. -/
def Mode.comment? (m : Mode) (before : List Char) : List Char → Option (List Char × List Char)
  | [] => none
  | c :: rest =>
      if m.quote.isNone && c == '/' && rest.head? == some '/' then some (before.reverse, rest.tail)
      else (m.step c).comment? (c :: before) rest

theorem findComment_eq_comment? (m : Mode) (h : m.escaped = false) (before cs : List Char) :
    findComment m.quote before cs = m.comment? before cs := by
  rcases m with ⟨quote, escaped, brackets⟩
  obtain rfl : escaped = false := h
  dsimp only
  fun_induction findComment quote before cs generalizing brackets with
  | case1 =>
      rfl
  | case2 quote before c =>
      simp [Mode.comment?]
  | case3 before c d rest q hc ih =>
      obtain rfl := eq_of_beq hc
      simp [Mode.comment?, Mode.step, ← ih]
  | case4 before c d rest q hc ih =>
      have hstep : (Mode.mk (some q) false brackets).step c =
          Mode.mk (if c == q then none else some q) false brackets := by
        by_cases hq : c = q
        · simp_all [Mode.step]
        · simp_all [Mode.step]
      rw [Mode.comment?.eq_2, hstep, ← ih]
      simp
  | case5 before c d rest hslash =>
      simp_all [Mode.comment?]
  | case6 before c d rest hslash ih =>
      -- the scanner for comments counts no brackets, so their number may be any
      have hstep : ∃ brackets', (Mode.mk none false brackets).step c =
          Mode.mk (if isQuote c then some c else none) false brackets' := by
        unfold Mode.step
        dsimp only
        split
        · exact ⟨brackets, rfl⟩
        · split
          · exact ⟨brackets + 1, rfl⟩
          · split
            · exact ⟨brackets - 1, rfl⟩
            · exact ⟨brackets, rfl⟩
      rcases hstep with ⟨brackets', hstep⟩
      rw [Mode.comment?.eq_2, hstep, ← ih]
      simp [hslash]

theorem comment?_map (m : Mode) (before cs : List Char) :
    m.comment? before cs = (m.comment? [] cs).map fun parts =>
      (before.reverse ++ parts.1, parts.2) := by
  induction cs generalizing m before with
  | nil =>
      rfl
  | cons c cs ih =>
      unfold Mode.comment?
      split
      · simp
      · rw [ih, ih _ [c]]
        simp [Function.comp_def]

theorem comment?_eq_none (m : Mode) (before before' cs : List Char) :
    m.comment? before cs = none ↔ m.comment? before' cs = none := by
  rw [comment?_map, comment?_map m before', Option.map_eq_none_iff, Option.map_eq_none_iff]

/-- A piece of code in which no comment begins is passed over.  Its last character must not be half
of a comment mark. -/
theorem comment?_append {m : Mode} {front : List Char} (h : m.comment? [] front = none)
    (hlast : front.getLast? ≠ some '/') (before rest : List Char) :
    m.comment? before (front ++ rest) = (m.after front).comment? (front.reverse ++ before)
      rest := by
  induction front generalizing m before with
  | nil =>
      rfl
  | cons c front ih =>
      rw [Mode.comment?.eq_2] at h
      split at h
      · cases h
      · next hmark =>
          rw [comment?_eq_none _ _ []] at h
          -- a slash at the end of the piece would be half of a mark with what follows
          have hnext : (front ++ rest).head? = some '/' → c = '/' → front.head? = some '/' := by
            cases front with
            | nil =>
                intro _ hc
                exact absurd (congrArg some hc) hlast
            | cons d front =>
                exact fun hhead _ => hhead
          have hskip : ¬(m.quote.isNone && c == '/' && (front ++ rest).head? == some '/') =
              true := by
            simp only [Bool.and_eq_true, beq_iff_eq] at hmark ⊢
            rintro ⟨⟨hquote, hc⟩, hhead⟩
            exact hmark ⟨⟨hquote, hc⟩, hnext hhead hc⟩
          have hmore : front.getLast? ≠ some '/' := by
            cases front with
            | nil =>
                simp
            | cons d front =>
                simpa using hlast
          rw [List.cons_append, Mode.comment?.eq_2, if_neg hskip, ih h hmore]
          simp

/-- No `//` in the code stands outside literals. -/
def Mode.Silent (m : Mode) (cs : List Char) : Prop :=
  ∀ front back, cs = front ++ '/' :: '/' :: back → (m.after front).quote ≠ none

theorem comment?_eq_none_iff (m : Mode) (before cs : List Char) :
    m.comment? before cs = none ↔ m.Silent cs := by
  induction cs generalizing m before with
  | nil =>
      simp [Mode.comment?, Mode.Silent]
  | cons c cs ih =>
      -- a mark stands here or after the first character
      have hstep : m.Silent (c :: cs) ↔
          ¬(m.quote.isNone && c == '/' && cs.head? == some '/') = true ∧ (m.step c).Silent cs := by
        constructor
        · intro h
          refine ⟨?_, fun front back hcs => h (c :: front) back (congrArg (c :: ·) hcs)⟩
          simp only [Bool.and_eq_true, beq_iff_eq, Option.isNone_iff_eq_none,
            List.head?_eq_some_iff]
          rintro ⟨⟨hquote, rfl⟩, back, rfl⟩
          exact h [] back rfl hquote
        · rintro ⟨hmark, hrest⟩ front back hcs
          cases front with
          | nil =>
              cases hcs
              simpa using hmark
          | cons d front =>
              cases hcs
              exact hrest front back rfl
      rw [hstep, Mode.comment?.eq_2]
      split
      · next hmark =>
          simp [hmark]
      · next hmark =>
          simp only [hmark, ih]
          simp

theorem findComment_eq_none_iff (cs : List Char) :
    findComment none [] cs = none ↔ Mode.Silent {} cs := by
  rw [← comment?_eq_none_iff _ [], ← findComment_eq_comment? {} rfl]

/-! ## Blanks around the code -/

theorem step_of_isBlank {m : Mode} {c : Char} (h : Text.isBlank c = true) (hm : m.quote = none) :
    m.step c = m := by
  have hne : ∀ d, Text.isBlank d = false → c ≠ d := fun d hd => Text.ne_of_class h hd
  simp [Mode.step, hm, isQuote, hne '"' (by decide), hne '\'' (by decide), hne '[' (by decide),
    hne ']' (by decide)]

theorem isEnd_of_isBlank {c : Char} (h : Text.isBlank c = true) : isEnd c = false := by
  have hne : ∀ d, Text.isBlank d = false → c ≠ d := fun d hd => Text.ne_of_class h hd
  simp [isEnd, hne ';' (by decide), hne '\x7b' (by decide), hne '\x7d' (by decide)]

theorem after_blanks {m : Mode} (hm : m.quote = none) {blanks : List Char}
    (h : ∀ c ∈ blanks, Text.isBlank c = true) : m.after blanks = m := by
  induction blanks with
  | nil =>
      rfl
  | cons c blanks ih =>
      rw [Mode.after_cons, step_of_isBlank (h c (List.mem_cons_self ..)) hm,
        ih fun d hd => h d (List.mem_cons_of_mem c hd)]

/-- Blanks are part of the statement being read. -/
theorem cut_blanks (m : Mode) {blanks : List Char} (h : ∀ c ∈ blanks, Text.isBlank c = true)
    (current : List Char) (found : List (List Char)) (rest : List Char) :
    m.cut current found (blanks ++ rest) =
      (m.after blanks).cut (blanks.reverse ++ current) found rest := by
  induction blanks generalizing m current with
  | nil =>
      rfl
  | cons c blanks ih =>
      have hend : isEnd c = false := isEnd_of_isBlank (h c (List.mem_cons_self ..))
      rw [List.cons_append, Mode.cut.eq_2, hend]
      simp [ih _ fun d hd => h d (List.mem_cons_of_mem c hd)]

/-- Blanks in front of a statement are not part of it. -/
theorem cut_append_current (m : Mode) {blanks : List Char} (h : ∀ c ∈ blanks, Text.isBlank c = true)
    (current : List Char) (found : List (List Char)) (cs : List Char) :
    m.cut (current ++ blanks) found cs = m.cut current found cs := by
  -- what is being read is kept in reverse: blanks at its far end stand in front
  have hemit : ∀ current found, emit found (current ++ blanks) = emit found current := by
    intro current found
    unfold emit
    rw [List.reverse_append, Text.trim_append_left fun c hc => h c (List.mem_reverse.1 hc)]
  induction cs generalizing m current found with
  | nil =>
      exact hemit _ _
  | cons c cs ih =>
      have hended : ended found (current ++ blanks) c = ended found current c := by
        unfold ended
        rw [hemit, ← List.cons_append, hemit]
      rw [Mode.cut.eq_2, Mode.cut.eq_2 m, hended, ← List.cons_append, ih]

/-- Blanks after the code are not part of the last statement. -/
theorem cut_append_blanks (m : Mode) {blanks : List Char} (h : ∀ c ∈ blanks, Text.isBlank c = true)
    (current : List Char) (found : List (List Char)) (cs : List Char) :
    m.cut current found (cs ++ blanks) = m.cut current found cs := by
  induction cs generalizing m current found with
  | nil =>
      have hcut := cut_blanks m h current found []
      rw [List.append_nil] at hcut
      rw [List.nil_append, hcut]
      show emit found (blanks.reverse ++ current) = emit found current
      unfold emit
      rw [List.reverse_append, List.reverse_reverse, Text.trim_append_blanks h]
  | cons c cs ih =>
      rw [List.cons_append, Mode.cut.eq_2, Mode.cut.eq_2 m, ih, ih]

/-- Blanks before the code do not matter. -/
theorem split_blanks_append {blanks : List Char} (h : ∀ c ∈ blanks, Text.isBlank c = true)
    (cs : List Char) :
    split (blanks ++ cs) = split cs := by
  have hcut := cut_append_current {} (fun c hc => h c (List.mem_reverse.1 hc)) [] [] cs
  rw [List.nil_append] at hcut
  rw [split_eq_cut, split_eq_cut, cut_blanks _ h, after_blanks rfl h, List.append_nil, hcut]

/-- Blanks after the code do not matter. -/
theorem split_append_blanks {blanks : List Char} (h : ∀ c ∈ blanks, Text.isBlank c = true)
    (cs : List Char) :
    split (cs ++ blanks) = split cs := by
  rw [split_eq_cut, split_eq_cut, cut_append_blanks _ h]

theorem split_of_blank {blanks : List Char} (h : ∀ c ∈ blanks, Text.isBlank c = true) :
    split blanks = [] :=
  split_append_blanks h []

theorem split_trim (cs : List Char) : split (Text.trim cs) = split cs := by
  rcases Text.exists_append_trim cs with ⟨before, after, hcs, hbefore, hafter⟩
  conv_rhs => rw [hcs, split_append_blanks hafter, split_blanks_append hbefore]

/-- No comment begins in blanks, and none that begins in the code is missed for blanks around it. -/
theorem comment?_append_blanks (m : Mode) {blanks : List Char}
    (h : ∀ c ∈ blanks, Text.isBlank c = true) (before cs : List Char) :
    m.comment? before (cs ++ blanks) =
      (m.comment? before cs).map fun parts => (parts.1, parts.2 ++ blanks) := by
  have hslash : '/' ∉ blanks := fun hmem => by
    have hblank := h '/' hmem
    revert hblank
    decide
  induction cs generalizing m before with
  | nil =>
      refine (comment?_eq_none_iff m before blanks).2 fun front back hblanks => ?_
      exact absurd (hblanks ▸ List.mem_append_right _ (List.mem_cons_self ..)) hslash
  | cons c cs ih =>
      -- the blanks complete no mark
      have hnext : ((cs ++ blanks).head? == some '/') = (cs.head? == some '/') := by
        cases cs with
        | nil =>
            cases blanks with
            | nil =>
                rfl
            | cons d blanks =>
                have hd : d ≠ '/' := fun hd => hslash (hd ▸ List.mem_cons_self ..)
                simpa using hd
        | cons d cs =>
            rfl
      rw [List.cons_append, Mode.comment?.eq_2, Mode.comment?.eq_2 m, hnext]
      split
      · next hmark =>
          cases cs with
          | nil =>
              simp at hmark
          | cons d cs =>
              rfl
      · exact ih _ _

theorem comment?_blanks_append {m : Mode} (hm : m.quote = none) {blanks : List Char}
    (h : ∀ c ∈ blanks, Text.isBlank c = true) (before cs : List Char) :
    m.comment? before (blanks ++ cs) = m.comment? (blanks.reverse ++ before) cs := by
  have hnone : m.comment? [] blanks = none := comment?_append_blanks m h [] []
  have hlast : blanks.getLast? ≠ some '/' := fun hlast => by
    have hblank := h '/' (List.mem_of_getLast? hlast)
    revert hblank
    decide
  rw [comment?_append hnone hlast, after_blanks hm h]

/-! ## What statements look like -/

theorem mem_emit {found : List (List Char)} {reversed s : List Char} (h : s ∈ emit found reversed) :
    s ∈ found ∨ (Text.trim s = s ∧ s ≠ []) := by
  unfold emit at h
  dsimp only at h
  split at h
  · exact .inl h
  · next hne =>
      rcases List.mem_cons.1 h with rfl | h
      · exact .inr ⟨Text.trim_trim _, by simpa using hne⟩
      · exact .inl h

theorem mem_cut {m : Mode} {current : List Char} {found : List (List Char)} {cs s : List Char}
    (h : s ∈ m.cut current found cs) : s ∈ found ∨ (Text.trim s = s ∧ s ≠ []) := by
  induction cs generalizing m current found with
  | nil =>
      exact mem_emit h
  | cons c cs ih =>
      rw [Mode.cut.eq_2] at h
      split at h
      · rcases ih h with hended | hs
        · unfold ended at hended
          split at hended
          · rcases mem_emit hended with hinner | hs
            · exact mem_emit hinner
            · exact .inr hs
          · exact mem_emit hended
        · exact .inr hs
      · exact ih h

/-- Statements are trimmed and not blank. -/
theorem trim_of_mem_split {cs s : List Char} (h : s ∈ split cs) : Text.trim s = s ∧ s ≠ [] := by
  rw [split_eq_cut, List.mem_reverse] at h
  exact (mem_cut h).resolve_left List.not_mem_nil

end Statement
end ApiPages

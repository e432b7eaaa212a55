import ApiPages.Page.Schema
import ApiPages.Proofs.Page.Links
import ApiPages.Proofs.Schema.Members
import ApiPages.Proofs.Text.Endings
import Mathlib.Algebra.GroupWithZero.Nat

/-!
# Tables

The fields of a message and the values of an enumeration are the rows of a table.

* `Table.cells` cuts a line at its bars, except those behind an odd number of backslashes;
* `Table.length_cells_row` counts the cells of a row: each text has one, and each of its bars that
  is behind an odd number of backslashes begins another one, since a backslash in front of it is one
  of an even number;
* `SchemaPage.page_tables` says which lines the tables of a page are, and what their cells are.
-/

namespace ApiPages

open Printer (IsWord IsDigits IsNumber)

namespace Table

/-! ## Cells -/

/-- The pieces of a line between its bars, with some backslashes in front of it.  A bar behind an
odd number of backslashes belongs to its piece. -/
def pieces (slashes : Nat) : List Char → List (List Char)
  | [] => [[]]
  | c :: cs =>
      if c = '|' ∧ slashes % 2 = 0 then [] :: pieces 0 cs
      else (pieces (if c = '\\' then slashes + 1 else 0) cs).modifyHead (c :: ·)

/-- What stands between the first bar of a line and the last one. -/
def cells (line : List Char) : List (List Char) :=
  (pieces 0 line).tail.dropLast

/-- How many bars of a text are behind an odd number of backslashes. -/
def strays (slashes : Nat) : List Char → Nat
  | [] => 0
  | c :: cs =>
      if c = '|' then slashes % 2 + strays 0 cs
      else strays (if c = '\\' then slashes + 1 else 0) cs

/-- The line of a table that shows some texts. -/
def row (texts : List String) : List Char :=
  '|' :: texts.flatMap fun t => (" " ++ Page.cell t ++ " |").toList

variable {n : Nat} {cs : List Char} {s : String}

theorem pieces_of_bar {c : Char} (h : c = '|' ∧ n % 2 = 0) (cs : List Char) :
    pieces n (c :: cs) = [] :: pieces 0 cs :=
  if_pos h

theorem pieces_of_not_bar {c : Char} (h : ¬(c = '|' ∧ n % 2 = 0)) (cs : List Char) :
    pieces n (c :: cs) = (pieces (if c = '\\' then n + 1 else 0) cs).modifyHead (c :: ·) :=
  if_neg h

theorem pieces_ne_nil (n : Nat) (cs : List Char) : pieces n cs ≠ [] := by
  induction cs generalizing n with
  | nil =>
      exact List.cons_ne_nil [] []
  | cons c cs ih =>
      by_cases h : c = '|' ∧ n % 2 = 0
      · rw [pieces_of_bar h]
        exact List.cons_ne_nil [] _
      · rw [pieces_of_not_bar h]
        exact mt List.modifyHead_eq_nil_iff.1 (ih _)

/-- A bar behind a space ends a piece. -/
theorem pieces_append_bar (n : Nat) (front rest : List Char) :
    pieces n (front ++ ' ' :: '|' :: rest) = pieces n (front ++ [' ']) ++ pieces 0 rest := by
  induction front generalizing n with
  | nil =>
      simp [pieces]
  | cons c front ih =>
      rw [List.cons_append, List.cons_append]
      by_cases h : c = '|' ∧ n % 2 = 0
      · rw [pieces_of_bar h, pieces_of_bar h, ih, List.cons_append]
      · rw [pieces_of_not_bar h, pieces_of_not_bar h, ih]
        obtain ⟨first, others, hpieces⟩ := List.exists_cons_of_ne_nil
          (pieces_ne_nil (if c = '\\' then n + 1 else 0) (front ++ [' ']))
        rw [hpieces]
        rfl

theorem pieces_eq_singleton (h : (pieces n cs).length = 1) : pieces n cs = [cs] := by
  induction cs generalizing n with
  | nil =>
      rfl
  | cons c cs ih =>
      by_cases hbar : c = '|' ∧ n % 2 = 0
      · -- behind a bar stands another piece
        rw [pieces_of_bar hbar] at h
        exact absurd (List.length_eq_zero_iff.1 (Nat.succ.inj h)) (pieces_ne_nil _ _)
      · rw [pieces_of_not_bar hbar, List.length_modifyHead] at h
        rw [pieces_of_not_bar hbar, ih h]
        rfl

theorem cells_row (texts : List String) :
    cells (row texts) = texts.flatMap fun t => pieces 0 (" " ++ Page.cell t ++ " ").toList := by
  have hall : pieces 0 (texts.flatMap fun t => (" " ++ Page.cell t ++ " |").toList) =
      (texts.flatMap fun t => pieces 0 (" " ++ Page.cell t ++ " ").toList) ++ [[]] := by
    induction texts with
    | nil =>
        rfl
    | cons t texts ih =>
        have hbar := pieces_append_bar 0 (" " ++ Page.cell t).toList
          (texts.flatMap fun t => (" " ++ Page.cell t ++ " |").toList)
        rw [List.flatMap_cons, List.flatMap_cons, List.append_assoc, ← ih]
        simpa [String.toList_append] using hbar
  rw [cells, row, pieces_of_bar ⟨rfl, rfl⟩, List.tail_cons, hall, List.dropLast_concat]

/-! ## Texts in cells -/

theorem toList_cell_cons (c : Char) (cs : List Char) :
    (Page.cell (String.ofList (c :: cs))).toList =
      (if c == '|' then ['\\', '|'] else if c == '\n' then [' '] else [c]) ++
        (Page.cell (String.ofList cs)).toList := by
  simp only [Page.cell, String.toList_ofList, List.flatMap_cons]

theorem cell_append (s t : String) : Page.cell (s ++ t) = Page.cell s ++ Page.cell t := by
  simp only [Page.cell, String.toList_append, List.flatMap_append, String.ofList_append]

/-- A bar of a text begins a piece if the backslash in front of it makes the number of backslashes
even. -/
theorem length_pieces_cell (n : Nat) (cs : List Char) :
    (pieces n (Page.cell (String.ofList cs)).toList).length = 1 + strays n cs := by
  -- on the plain text; the number of backslashes in front of a character is the same in both texts,
  -- but for a bar
  induction cs generalizing n with
  | nil =>
      rfl
  | cons c cs ih =>
      rw [toList_cell_cons, strays]
      by_cases hbar : c = '|'
      · subst hbar
        rcases Nat.mod_two_eq_zero_or_one n with heven | hodd
        · -- the backslash in front of the bar is behind an even number of them
          have hnext : (n + 1) % 2 = 1 := by omega
          simp [pieces, heven, hnext, ih]
        · have hnext : (n + 1) % 2 = 0 := by omega
          simp [pieces, hodd, hnext, ih]
          omega
      · by_cases hbreak : c = '\n'
        · subst hbreak
          simp [pieces, ih]
        · simp [pieces, hbar, hbreak, ih]

theorem strays_append {c : Char} (hc : c ≠ '|' ∧ c ≠ '\\') (n : Nat) (front rest : List Char) :
    strays n (front ++ c :: rest) = strays n front + strays 0 rest := by
  induction front generalizing n with
  | nil =>
      simp [strays, hc]
  | cons d front ih =>
      rw [List.cons_append, strays, strays]
      split
      · rw [ih, Nat.add_assoc]
      · exact ih _

theorem strays_of_not_mem (h : '|' ∉ cs) (n : Nat) : strays n cs = 0 := by
  induction cs generalizing n with
  | nil =>
      rfl
  | cons c cs ih =>
      rw [List.mem_cons, not_or] at h
      rw [strays, if_neg (Ne.symm h.1), ih h.2]

/-- A character on either side of a text makes no difference to its bars. -/
theorem strays_between {c : Char} (hc : c ≠ '|' ∧ c ≠ '\\') (cs : List Char) :
    strays 0 (c :: (cs ++ [c])) = strays 0 cs := by
  have hfront := strays_append hc 0 [] (cs ++ [c])
  have hback := strays_append hc 0 cs []
  rw [List.nil_append] at hfront
  rw [hfront, hback]
  simp [strays]

/-- Joining lines by spaces brings no backslash in front of a bar. -/
theorem strays_joined (lines : List String) :
    strays 0 (Text.joined " " lines).toList = (lines.map fun l => strays 0 l.toList).sum := by
  rw [Text.joined, String.toList_intercalate]
  induction lines with
  | nil =>
      rfl
  | cons first lines ih =>
      cases lines with
      | nil =>
          simp
      | cons second lines =>
          calc strays 0 ([' '].intercalate ((first :: second :: lines).map String.toList))
              = strays 0
                  (first.toList ++ ' ' ::
                    [' '].intercalate ((second :: lines).map String.toList)) := by
                simp [List.intercalate_cons_cons]
            _ = strays 0 first.toList + strays 0
              ([' '].intercalate ((second :: lines).map String.toList)) :=
                strays_append (by decide) 0 _ _
            _ = strays 0 first.toList + ((second :: lines).map fun l => strays 0 l.toList).sum :=
                congrArg _ ih

theorem length_pieces_padded (t : String) :
    (pieces 0 (" " ++ Page.cell t ++ " ").toList).length = 1 + strays 0 t.toList := by
  have hcell : " " ++ Page.cell t ++ " " =
      Page.cell (String.ofList (' ' :: (t.toList ++ [' ']))) := by
    simp [Page.cell, String.append_assoc]
  rw [hcell, length_pieces_cell, strays_between (by decide)]

/-- A row has a cell for each of its texts and one for each stray bar of them. -/
theorem length_cells_row (texts : List String) : (cells (row texts)).length =
    texts.length + (texts.map fun t => strays 0 t.toList).sum := by
  rw [cells_row]
  induction texts with
  | nil =>
      rfl
  | cons t texts ih =>
      calc ((t :: texts).flatMap fun t => pieces 0 (" " ++ Page.cell t ++ " ").toList).length
          = 1 + strays 0 t.toList +
              (texts.length + (texts.map fun t => strays 0 t.toList).sum) := by
            rw [List.flatMap_cons, List.length_append, length_pieces_padded, ih]
        _ = (t :: texts).length + ((t :: texts).map fun t => strays 0 t.toList).sum := by
            rw [List.length_cons, List.map_cons, List.sum_cons]
            omega

/-- Without stray bars the cells of a row are its texts. -/
theorem cells_row_of_strays_eq_zero {texts : List String} (h : ∀ t ∈ texts, strays 0 t.toList = 0) :
    cells (row texts) = texts.map fun t => (" " ++ Page.cell t ++ " ").toList := by
  rw [cells_row]
  induction texts with
  | nil =>
      rfl
  | cons t texts ih =>
      have hone : (pieces 0 (" " ++ Page.cell t ++ " ").toList).length = 1 := by
        rw [length_pieces_padded, h t (List.mem_cons_self ..)]
      rw [List.flatMap_cons, List.map_cons, pieces_eq_singleton hone,
        ih fun t' ht' => h t' (List.mem_cons_of_mem _ ht')]
      rfl

/-! ## Lines -/

theorem mem_cell_iff {c : Char} (hc : c ≠ '\\' ∧ c ≠ '|' ∧ c ≠ ' ' ∧ c ≠ '\n') :
    c ∈ (Page.cell s).toList ↔ c ∈ s.toList := by
  obtain ⟨hslash, hbar, hspace, hbreak⟩ := hc
  rw [Page.cell, String.toList_ofList, List.mem_flatMap]
  constructor
  · rintro ⟨d, hd, hc⟩
    split at hc
    · simp [hslash, hbar] at hc
    · split at hc
      · simp [hspace] at hc
      · rwa [List.mem_singleton.1 hc]
  · intro hc
    exact ⟨c, hc, by simp [hbar, hbreak]⟩

/-- A row is one line. -/
theorem newline_not_mem_row (texts : List String) : '\n' ∉ row texts := by
  have hcell : ∀ t, '\n' ∉ (Page.cell t).toList := by
    intro t hmem
    rw [Page.cell, String.toList_ofList] at hmem
    obtain ⟨d, -, hd⟩ := List.mem_flatMap.1 hmem
    split at hd
    · simp at hd
    · split at hd
      · simp at hd
      · next hbreak =>
          exact hbreak (by rw [← List.mem_singleton.1 hd]; rfl)
  simp [row, String.toList_append, hcell]

theorem return_mem_row_iff {texts : List String} :
    '\r' ∈ row texts ↔ ∃ t ∈ texts, '\r' ∈ t.toList := by
  have hcell : ∀ t, '\r' ∈ (Page.cell t).toList ↔ '\r' ∈ t.toList :=
    fun t => mem_cell_iff (by decide)
  simp [row, String.toList_append, hcell]

/-! ## Plain texts -/

/-- A text that is shown as it is. -/
def IsPlain (s : String) : Prop :=
  ∀ c ∈ s.toList, c ≠ '|' ∧ c ≠ '\n' ∧ c ≠ '\r'

theorem cell_of_isPlain (h : IsPlain s) : Page.cell s = s := by
  have hsame :
    s.toList.flatMap (fun c => if c == '|' then ['\\', '|'] else if c == '\n' then [' '] else [c]) =
      s.toList.flatMap fun c => [c] := by
    refine List.flatMap_congr fun c hc => ?_
    obtain ⟨hbar, hbreak, -⟩ := h c hc
    simp [hbar, hbreak]
  rw [Page.cell, hsame, List.flatMap_singleton', String.ofList_toList]

theorem isPlain_of_class {p : Char → Bool} (hbar : p '|' = false) (hbreak : p '\n' = false)
    (hreturn : p '\r' = false) (h : ∀ c ∈ s.toList, p c = true) : IsPlain s :=
  fun c hc =>
    ⟨Text.ne_of_class (h c hc) hbar, Text.ne_of_class (h c hc) hbreak,
      Text.ne_of_class (h c hc) hreturn⟩

theorem isPlain_of_isWord (h : IsWord s) : IsPlain s :=
  isPlain_of_class (by decide) (by decide) (by decide) h.2

theorem isPlain_of_isDigits (h : IsDigits s) : IsPlain s :=
  isPlain_of_class (by decide) (by decide) (by decide) h.2

theorem isPlain_append {t : String} (hs : IsPlain s) (ht : IsPlain t) : IsPlain (s ++ t) := by
  intro c hc
  rw [String.toList_append, List.mem_append] at hc
  exact hc.elim (hs c) (ht c)

theorem isPlain_of_isNumber (h : IsNumber s) : IsPlain s := by
  rcases h with hdigits | ⟨digits, hdigits, rfl⟩
  · exact isPlain_of_isDigits hdigits
  · have hsign : IsPlain "-" := by
      simp [IsPlain]
    exact isPlain_append hsign (isPlain_of_isDigits hdigits)

theorem strays_of_isPlain (h : IsPlain s) : strays 0 s.toList = 0 :=
  strays_of_not_mem (fun hbar => (h _ hbar).1 rfl) 0

end Table

/-! ## Tables of a page -/

namespace SchemaPage

open ModulePages (EndsLine HoldsLine)
open Table

/-- The lines stand in the body one below the other, and below them an empty one. -/
def HoldsTable (body : String) (lines : List (List Char)) : Prop :=
  lines ++ [[]] <:+: body.toList.splitOn '\n'

/-- Lines with their ends. -/
def ended (lines : List (List Char)) : String :=
  String.ofList (lines.flatMap fun l => l ++ ['\n'])

theorem ended_cons (line : List Char) (lines : List (List Char)) :
    ended (line :: lines) = String.ofList line ++ "\n" ++ ended lines := by
  apply String.toList_injective
  simp [ended, String.toList_append]

theorem holdsTable_of_holdsLine {body : String} {lines : List (List Char)}
    (hfree : ∀ l ∈ lines, '\n' ∉ l) (h : HoldsLine body (ended lines)) : HoldsTable body lines := by
  obtain ⟨before, after, rfl⟩ := h
  have hafter : ('\n' :: after.toList).splitOn '\n' = [] :: after.toList.splitOn '\n' :=
    List.splitOnP_append_cons [] _ rfl
  have hbefore : (before.toList ++ '\n' ::
      ((lines.flatMap fun l => l ++ ['\n']) ++ '\n' :: after.toList)).splitOn '\n' =
      before.toList.splitOn '\n' ++ (lines ++ [] :: after.toList.splitOn '\n') := by
    rw [← hafter, ← Text.splitOn_lines_append hfree]
    exact List.splitOnP_append_cons _ _ rfl
  refine ⟨before.toList.splitOn '\n', after.toList.splitOn '\n', ?_⟩
  simpa [ended, String.toList_append] using hbefore.symm

/-- What stands below the end of a line stands on lines of its own. -/
theorem holdsLine_of_endsLine {front : String} (h : EndsLine front) (text rest : String) :
    HoldsLine (front ++ text ++ "\n" ++ rest) text := by
  obtain ⟨before, rfl⟩ := h
  exact ⟨before, rest, rfl⟩

theorem holdsLine_titled {α : Type} (title : String) {text : String} {entries : List α}
    {render : α → String} {a : α} (ha : a ∈ entries) (h : HoldsLine (render a) text) :
    HoldsLine (titled title entries render) text := by
  have hne : entries.isEmpty = false := by
    rw [List.isEmpty_eq_false_iff]
    exact List.ne_nil_of_mem ha
  rw [titled, hne, if_neg Bool.false_ne_true]
  exact (h.join (List.mem_map_of_mem ha)).append_left _

/-! ### Rows -/

/-- The comment of a member on one line; a hyphen stands for none. -/
def comment (lines : List String) : String :=
  if lines.isEmpty then "-" else Text.joined " " lines

/-- What the row of a field shows. -/
def fieldTexts (f : MessageField) : List String :=
  ["`" ++ f.name ++ "`", "`" ++ fieldType f ++ "`", f.number, comment f.docs]

/-- What the row of a value shows. -/
def valueTexts (v : EnumValue) : List String :=
  ["`" ++ v.name ++ "`", v.number, comment v.docs]

theorem remark_eq (lines : List String) : remark lines = Page.cell (comment lines) := by
  rw [remark, comment]
  split
  · rfl
  · rfl

theorem cell_quoted (t : String) : Page.cell ("`" ++ t ++ "`") = "`" ++ Page.cell t ++ "`" := by
  rw [cell_append, cell_append]
  rfl

theorem toList_fieldRow {f : MessageField} (hname : IsPlain f.name) (hnumber : IsPlain f.number) :
    (fieldRow f).toList = row (fieldTexts f) ++ ['\n'] := by
  delta fieldRow
  simp [row, fieldTexts, cell_quoted, cell_of_isPlain hname, cell_of_isPlain hnumber, remark_eq,
    String.toList_append]

theorem toList_valueRow {v : EnumValue} (hname : IsPlain v.name) (hnumber : IsPlain v.number) :
    (valueRow v).toList = row (valueTexts v) ++ ['\n'] := by
  delta valueRow
  simp [row, valueTexts, cell_quoted, cell_of_isPlain hname, cell_of_isPlain hnumber, remark_eq,
    String.toList_append]

/-- How many bars of the lines of a comment are behind an odd number of backslashes. -/
def strayBars (lines : List String) : Nat :=
  (lines.map fun l => strays 0 l.toList).sum

theorem strays_comment (lines : List String) :
    strays 0 (comment lines).toList = strayBars lines := by
  cases lines with
  | nil =>
      rfl
  | cons first lines =>
      exact strays_joined (first :: lines)

theorem strays_quoted (t : String) : strays 0 ("`" ++ t ++ "`").toList = strays 0 t.toList := by
  have hchars : ("`" ++ t ++ "`").toList = '\x60' :: (t.toList ++ ['\x60']) := by
    simp [String.toList_append]
  rw [hchars, strays_between (by decide)]

/-- The type of a field is shown behind a word at most. -/
theorem exists_fieldType (f : MessageField) :
    ∃ label ∈ ["", "repeated ", "optional "], fieldType f = label ++ f.type := by
  rw [fieldType]
  split
  · exact ⟨"repeated ", by simp, rfl⟩
  · split
    · exact ⟨"optional ", by simp, rfl⟩
    · exact ⟨"", by simp, String.empty_append.symm⟩

theorem strays_fieldType (f : MessageField) :
    strays 0 (fieldType f).toList = strays 0 f.type.toList := by
  -- the space behind a label ends whatever run of backslashes stands in front of it
  have hlabelled : ∀ word : List Char, '|' ∉ word →
      strays 0 (word ++ ' ' :: f.type.toList) = strays 0 f.type.toList := by
    intro word hbar
    rw [strays_append (by decide), strays_of_not_mem hbar, Nat.zero_add]
  obtain ⟨label, hlabel, htype⟩ := exists_fieldType f
  rw [htype, String.toList_append]
  rcases List.mem_cons.1 hlabel with rfl | hlabel
  · rfl
  · rcases List.mem_pair.1 hlabel with rfl | rfl
    · simpa using hlabelled "repeated".toList (by decide)
    · simpa using hlabelled "optional".toList (by decide)

/-- A line of a table with its columns: what they show, the comment lines among that, and how many
bars behind an odd number of backslashes stand in the other columns.  The line is not broken, but
for carriage returns of the comment; the bars behind an odd number of backslashes are counted as
cells, and if there are none, the cells are what is shown. -/
structure IsRow (line : List Char) (columns : Nat) (shown docs : List String) (bars : Nat) :
    Prop where
  newline : '\n' ∉ line
  carriage : '\r' ∈ line ↔ ∃ d ∈ docs, '\r' ∈ d.toList
  length_cells : (cells line).length = columns + (bars + strayBars docs)
  cells_eq : bars + strayBars docs = 0 →
    cells line = shown.map fun t => (" " ++ Page.cell t ++ " ").toList

theorem return_mem_comment_iff (lines : List String) :
    '\r' ∈ (comment lines).toList ↔ ∃ d ∈ lines, '\r' ∈ d.toList := by
  cases lines with
  | nil =>
      simp [comment]
  | cons first lines =>
      rw [comment, if_neg (by simp), Text.joined, String.toList_intercalate]
      induction lines generalizing first with
      | nil =>
          simp
      | cons second lines ih =>
          rw [List.map_cons, List.map_cons, List.intercalate_cons_cons, ← List.map_cons,
            List.exists_mem_cons_iff, ← ih]
          simp

theorem isRow_row {texts docs : List String} {bars : Nat}
    (hbars : (texts.map fun t => strays 0 t.toList).sum = bars + strayBars docs)
    (hreturn : (∃ t ∈ texts, '\r' ∈ t.toList) ↔ ∃ d ∈ docs, '\r' ∈ d.toList) :
    IsRow (row texts) texts.length texts docs bars where
  newline := newline_not_mem_row texts
  carriage := return_mem_row_iff.trans hreturn
  length_cells := by rw [length_cells_row, hbars]
  cells_eq hnone := by
    rw [← hbars, List.sum_eq_zero_iff_forall_eq_nat] at hnone
    exact cells_row_of_strays_eq_zero fun t ht => hnone _ (List.mem_map_of_mem ht)

theorem return_not_mem_of_isPlain {t : String} (h : IsPlain t) : '\r' ∉ t.toList :=
  fun hmem => (h _ hmem).2.2 rfl

theorem isRow_fieldTexts {f : MessageField} (hname : IsWord f.name) (hnumber : IsDigits f.number)
    (htype : ∀ c ∈ f.type.toList, c = ' ' ∨ Text.isSpace c = false) :
    IsRow (row (fieldTexts f)) 4 (fieldTexts f) f.docs (strays 0 f.type.toList) := by
  have hbars : ((fieldTexts f).map fun t => strays 0 t.toList).sum =
      strays 0 f.type.toList + strayBars f.docs := by
    simp only [fieldTexts, List.map_cons, List.map_nil, List.sum_cons, List.sum_nil, strays_quoted,
      strays_of_isPlain (isPlain_of_isWord hname), strays_of_isPlain (isPlain_of_isDigits hnumber),
      strays_fieldType, strays_comment]
    omega
  have hreturn : '\r' ∉ (fieldType f).toList := by
    obtain ⟨label, hlabel, heq⟩ := exists_fieldType f
    have hfree : ∀ l ∈ ["", "repeated ", "optional "], '\r' ∉ l.toList := by
      decide
    rw [heq, String.toList_append, List.mem_append, not_or]
    refine ⟨hfree label hlabel, fun hmem => ?_⟩
    rcases htype _ hmem with hspace | hspace
    · revert hspace
      decide
    · revert hspace
      decide
  refine isRow_row hbars ?_
  simp [fieldTexts, String.toList_append, return_not_mem_of_isPlain (isPlain_of_isWord hname),
    hreturn, return_not_mem_of_isPlain (isPlain_of_isDigits hnumber), return_mem_comment_iff]

theorem isRow_valueTexts {v : EnumValue} (hname : IsWord v.name) (hnumber : IsNumber v.number) :
    IsRow (row (valueTexts v)) 3 (valueTexts v) v.docs 0 := by
  have hbars : ((valueTexts v).map fun t => strays 0 t.toList).sum = 0 + strayBars v.docs := by
    simp only [valueTexts, List.map_cons, List.map_nil, List.sum_cons, List.sum_nil, strays_quoted,
      strays_of_isPlain (isPlain_of_isWord hname), strays_of_isPlain (isPlain_of_isNumber hnumber),
      strays_comment]
    omega
  refine isRow_row hbars ?_
  simp [valueTexts, String.toList_append, return_not_mem_of_isPlain (isPlain_of_isWord hname),
    return_not_mem_of_isPlain (isPlain_of_isNumber hnumber), return_mem_comment_iff]

/-! ### Tables -/

/-- The lines of the table of a message. -/
def fieldTable (fields : List MessageField) : List (List Char) :=
  "| Field | Type | Number | Description |".toList ::
    "|-------|------|--------|-------------|".toList ::
    fields.map fun f => row (fieldTexts f)

/-- The lines of the table of an enumeration. -/
def valueTable (values : List EnumValue) : List (List Char) :=
  "| Name | Number | Description |".toList :: "|------|--------|-------------|".toList ::
    values.map fun v => row (valueTexts v)

theorem join_rows {α : Type} {members : List α} {line : α → String} {texts : α → List String}
    (h : ∀ a ∈ members, (line a).toList = row (texts a) ++ ['\n']) :
    String.join (members.map line) = ended (members.map fun a => row (texts a)) := by
  apply String.toList_injective
  induction members with
  | nil =>
      rfl
  | cons a members ih =>
      have ih' := ih fun b hb => h b (List.mem_cons_of_mem _ hb)
      rw [ended, String.toList_ofList] at ih' ⊢
      rw [List.map_cons, String.join_cons, String.toList_append, h a (List.mem_cons_self ..), ih']
      rfl

theorem endsLine_heading_docs (level : Nat) (name : String) (lines : List String) :
    EndsLine (heading level name ++ docs lines) := by
  have hheading : EndsLine (heading level name) := by
    refine ⟨Text.repeated level '#' ++ " `" ++ name ++ "`\n", ?_⟩
    simp only [heading, String.append_assoc]
    rfl
  rw [docs]
  split
  · rwa [String.append_empty]
  · refine EndsLine.append _ ⟨Text.joined "\n" lines ++ "\n", ?_⟩
    rw [String.append_assoc]
    rfl

theorem holdsLine_message {m : Message} (hne : m.fields ≠ [])
    (hrows : ∀ f ∈ m.fields, (fieldRow f).toList = row (fieldTexts f) ++ ['\n']) :
    HoldsLine (message m) (ended (fieldTable m.fields)) := by
  have hfront : EndsLine (heading 3 m.name ++ docs m.docs ++ "#### Fields\n\n") :=
    EndsLine.append _ ⟨"#### Fields\n", rfl⟩
  have htitles : "#### Fields\n\n| Field | Type | Number | Description |\n" =
      "#### Fields\n\n" ++ ("| Field | Type | Number | Description |" ++ "\n") := rfl
  have hruler : "|-------|------|--------|-------------|\n" =
    "|-------|------|--------|-------------|" ++ "\n" := rfl
  have hline := holdsLine_of_endsLine hfront (ended (fieldTable m.fields)) "---\n\n"
  rw [fieldTable, ended_cons, ended_cons, String.ofList_toList, String.ofList_toList,
    ← join_rows hrows] at hline ⊢
  rw [message, if_neg (by simpa using hne), htitles, hruler]
  simpa only [String.append_assoc] using hline

theorem holdsLine_enumeration {e : EnumDecl} (hne : e.values ≠ [])
    (hrows : ∀ v ∈ e.values, (valueRow v).toList = row (valueTexts v) ++ ['\n']) :
    HoldsLine (enumeration e) (ended (valueTable e.values)) := by
  have htitles : "| Name | Number | Description |\n|------|--------|-------------|\n" =
      "| Name | Number | Description |" ++ "\n" ++ ("|------|--------|-------------|" ++ "\n") :=
        rfl
  have hline :=
    holdsLine_of_endsLine (endsLine_heading_docs 3 e.name e.docs) (ended (valueTable e.values))
      "---\n\n"
  rw [valueTable, ended_cons, ended_cons, String.ofList_toList, String.ofList_toList,
    ← join_rows hrows] at hline ⊢
  rw [enumeration, if_neg (by simpa using hne), htitles]
  simpa only [String.append_assoc] using hline

/-- The tables of a page.  The members of a message stand one below the other below the titles of
four columns, each on one line, and those of an enumeration below the titles of three.  A line has a
cell for each of them and one more for each bar of the type or the comment that is behind an odd
number of backslashes; if there is none, its cells are name, type, number and comment. -/
theorem page_tables (file text ext : String) :
    (∀ m ∈ (Schema.parse text).messages,
      (m.fields ≠ [] → HoldsTable (page file (Schema.parse text) ext).body (fieldTable m.fields)) ∧
      ∀ f ∈ m.fields, IsRow (row (fieldTexts f)) 4 (fieldTexts f) f.docs (strays 0 f.type.toList)) ∧
    ∀ e ∈ (Schema.parse text).enums,
      (e.values ≠ [] → HoldsTable (page file (Schema.parse text) ext).body (valueTable e.values)) ∧
      ∀ v ∈ e.values, IsRow (row (valueTexts v)) 3 (valueTexts v) v.docs 0 := by
  constructor
  · intro m hm
    refine ⟨fun hne => ?_, fun f hf => ?_⟩
    · -- names and numbers need no escapes, so a row is the row of what it shows
      have hrows : ∀ f ∈ m.fields, (fieldRow f).toList = row (fieldTexts f) ++ ['\n'] := by
        intro f hf
        obtain ⟨hname, hnumber, -⟩ := Schema.shape_of_mem_fields hm hf
        exact toList_fieldRow (isPlain_of_isWord hname) (isPlain_of_isDigits hnumber)
      have hfree : ∀ l ∈ fieldTable m.fields, '\n' ∉ l := by
        simp [fieldTable, newline_not_mem_row]
      have hmessages := holdsLine_titled "Messages" hm (holdsLine_message hne hrows)
      exact holdsTable_of_holdsLine hfree ((hmessages.append_left _).append_right _)
    · obtain ⟨hname, hnumber, htype⟩ := Schema.shape_of_mem_fields hm hf
      exact isRow_fieldTexts hname hnumber htype
  · intro e he
    refine ⟨fun hne => ?_, fun v hv => ?_⟩
    · have hrows : ∀ v ∈ e.values, (valueRow v).toList = row (valueTexts v) ++ ['\n'] := by
        intro v hv
        obtain ⟨hname, hnumber⟩ := Schema.shape_of_mem_values he hv
        exact toList_valueRow (isPlain_of_isWord hname) (isPlain_of_isNumber hnumber)
      have hfree : ∀ l ∈ valueTable e.values, '\n' ∉ l := by
        simp [valueTable, newline_not_mem_row]
      have henums := holdsLine_titled "Enums" he (holdsLine_enumeration hne hrows)
      exact holdsTable_of_holdsLine hfree (henums.append_left _)
    · obtain ⟨hname, hnumber⟩ := Schema.shape_of_mem_values he hv
      exact isRow_valueTexts hname hnumber

/-- A map, a comment with a bar, and one with a bar behind two backslashes. -/
def barred : String :=
  "message A \x7b\n  map<string, int32> a = 1; // x | y\n\x7d\n" ++
    "enum E \x7b\n  // x \\\\| y\n  // z\n  B = -1;\n\x7d\n"

def barredMessage : Message :=
  { name := "A"
    fields := [{ type := "map<string, int32>", name := "a", number := "1", docs := ["x | y"] }] }

def barredEnum : EnumDecl :=
  { name := "E"
    values := [{ name := "B", number := "-1", docs := ["x \\\\| y", "z"] }] }

theorem page_tables_barred :
    (barredMessage ∈ (Schema.parse barred).messages ∧ barredMessage.fields ≠ [] ∧
      barredEnum ∈ (Schema.parse barred).enums) ∧
    HoldsTable (page "a.proto" (Schema.parse barred) "").body
      ["| Field | Type | Number | Description |".toList,
      "|-------|------|--------|-------------|".toList,
      "| `a` | `map<string, int32>` | 1 | x \\| y |".toList] ∧
    ∀ v ∈ barredEnum.values,
      cells (row (valueTexts v)) = [" `B` ", " -1 ", " x \\\\\\| y z "].map String.toList := by
  have hparse : Schema.parse barred = { messages := [barredMessage], enums := [barredEnum] } := by
    decide +kernel
  have hmessage : barredMessage ∈ (Schema.parse barred).messages := by
    rw [hparse]
    exact List.mem_singleton_self barredMessage
  have henum : barredEnum ∈ (Schema.parse barred).enums := by
    rw [hparse]
    exact List.mem_singleton_self barredEnum
  have hfields : barredMessage.fields ≠ [] := by
    decide
  have htable : fieldTable barredMessage.fields = ["| Field | Type | Number | Description |".toList,
      "|-------|------|--------|-------------|".toList,
      "| `a` | `map<string, int32>` | 1 | x \\| y |".toList] := by
    decide +kernel
  have hshown : ∀ v ∈ barredEnum.values, strayBars v.docs = 0 ∧
      (valueTexts v).map (fun t => (" " ++ Page.cell t ++ " ").toList) =
        [" `B` ", " -1 ", " x \\\\\\| y z "].map String.toList := by
    decide +kernel
  obtain ⟨hmessages, henums⟩ := page_tables "a.proto" barred ""
  refine ⟨⟨hmessage, hfields, henum⟩, htable ▸ (hmessages barredMessage hmessage).1 hfields,
    fun v hv => ?_⟩
  obtain ⟨hbars, htexts⟩ := hshown v hv
  rw [← htexts]
  exact ((henums barredEnum henum).2 v hv).cells_eq (by rw [hbars])

/-- A field with a bar in its comment that is escaped already. -/
def escapedBar : String :=
  "message A \x7b\n  int32 a = 1; // x \\| y\n\x7d\n"

/-- The bar is a cell more in the row of the field. -/
theorem page_splits_escapedBar :
    "| `a` | `int32` | 1 | x \\\\| y |".toList ∈
        (page "a.proto" (Schema.parse escapedBar) ".mdx").body.toList.splitOn '\n' ∧
      cells "| `a` | `int32` | 1 | x \\\\| y |".toList =
        [" `a` ", " `int32` ", " 1 ", " x \\\\", " y "].map String.toList := by
  constructor
  · decide +kernel
  · decide

end SchemaPage
end ApiPages

import ApiPages.Proofs.Schema.Printer
import ApiPages.Proofs.Text.Blank
import ApiPages.Schema.Reader

/-!
# Lines that hold one statement

The scanners for comments and for statements pass over text without marks, and over quoted text
without looking inside.  `Passes` says that of a piece of text for both scanners at once; pieces can
be put together, and a piece with one mark at its end is a single statement.

* `passes_of_plain`, `passes_quoted`, `Passes.append` build pieces;
* `Single` are the statements that make up a line of their own and `Ended` those of them that end in
  a semicolon, `Passes.single` and `Passes.ended` give them;
* `Single.line` and `line_comment` say what the reader makes of such a line and of a comment line,
  `foldl_line_documented` of both together.
-/

namespace ApiPages

/-! ## Character classes -/

namespace Text

theorem isBlank_of_isNamePart {c : Char} (h : Recognize.isNamePart c = true) :
    isBlank c = false := by
  simp only [Recognize.isNamePart, Bool.or_eq_true, beq_iff_eq] at h
  rcases h with h | rfl
  · exact isBlank_of_isWord h
  · decide

end Text

namespace Statement

open Text

/-! ## Pieces of code -/

/-- Characters that mean nothing to the scanners and end no line. -/
def isPlain (c : Char) : Bool :=
  !(isQuote c || c == '/' || c == '[' || c == ']' || c == ';' || c == '\x7b' || c ==
    '\x7d' || c == '\n')

theorem isPlain_of_isNamePart {c : Char} (h : Recognize.isNamePart c = true) :
    isPlain c = true := by
  have hne : ∀ d, Recognize.isNamePart d = false → c ≠ d := fun d hd => ne_of_class h hd
  simp [isPlain, isQuote, hne '"' (by decide), hne '\'' (by decide), hne '/' (by decide),
    hne '[' (by decide), hne ']' (by decide), hne ';' (by decide), hne '\x7b' (by decide),
    hne '\x7d' (by decide), hne '\n' (by decide)]

/-- Both scanners pass over the piece, outside quotes and brackets, and it is part of one line. -/
structure Passes (piece : List Char) : Prop where
  oneLine : '\n' ∉ piece
  scan : ∀ (current : List Char) (found : List (List Char)) (rest : List Char),
    scan none 0 current found (piece ++ rest) =
      Statement.scan none 0 (piece.reverse ++ current) found rest
  comment : ∀ before rest : List Char,
    findComment none before (piece ++ rest) = findComment none (piece.reverse ++ before) rest

theorem passes_nil : Passes [] where
  oneLine := by simp
  scan := fun _ _ _ => rfl
  comment := fun _ _ => rfl

theorem Passes.append {a b : List Char} (ha : Passes a) (hb : Passes b) : Passes (a ++ b) where
  oneLine := by
    simp [ha.oneLine, hb.oneLine]
  scan := by
    intro current found rest
    rw [List.append_assoc, ha.scan, hb.scan, List.reverse_append, List.append_assoc]
  comment := by
    intro before rest
    rw [List.append_assoc, ha.comment, hb.comment, List.reverse_append, List.append_assoc]

theorem passes_singleton {c : Char} (h : isPlain c = true) : Passes [c] := by
  simp [isPlain, isQuote] at h
  rcases h with ⟨⟨⟨⟨⟨⟨⟨⟨h1, h2⟩, h3⟩, h4⟩, h5⟩, h6⟩, h7⟩, h8⟩, h9⟩
  constructor
  · simp [Ne.symm h9]
  · intro current found rest
    simp [Statement.scan, isQuote, h1, h2, h4, h5, h6, h7, h8]
  · intro before rest
    cases rest with
    | nil =>
        rfl
    | cons d rest =>
        simp [findComment, isQuote, h1, h2, h3]

theorem passes_of_plain {piece : List Char} (h : piece.all isPlain = true) : Passes piece := by
  induction piece with
  | nil =>
      exact passes_nil
  | cons c piece ih =>
      rw [List.all_cons, Bool.and_eq_true] at h
      have hc : Passes [c] := passes_singleton h.1
      exact hc.append (ih h.2)

/-- Inside quotes only the closing quote and the backslash matter. -/
theorem scan_quoted {text : List Char} (h : ∀ c ∈ text, c ≠ '"' ∧ c ≠ '\\') (current : List Char)
    (found : List (List Char)) (rest : List Char) :
    scan (some '"') 0 current found (text ++ '"' :: rest) =
      scan none 0 ('"' :: text.reverse ++ current) found rest := by
  induction text generalizing current with
  | nil =>
      rw [List.nil_append, scan.eq_def]
      rfl
  | cons c text ih =>
      rcases h c (List.mem_cons_self ..) with ⟨hquote, hback⟩
      have htext := ih (fun d hd => h d (List.mem_cons_of_mem c hd)) (c :: current)
      rw [List.cons_append, scan.eq_def]
      simp [hquote, hback, htext]

theorem findComment_quoted {text : List Char} (h : ∀ c ∈ text, c ≠ '"' ∧ c ≠ '\\')
    (before rest : List Char) :
    findComment (some '"') before (text ++ '"' :: rest) =
      findComment none ('"' :: text.reverse ++ before) rest := by
  induction text generalizing before with
  | nil =>
      cases rest with
      | nil =>
          rfl
      | cons d rest =>
          simp [findComment]
  | cons c text ih =>
      rcases h c (List.mem_cons_self ..) with ⟨hquote, hback⟩
      have htext := ih (fun d hd => h d (List.mem_cons_of_mem c hd)) (c :: before)
      rw [List.cons_append]
      cases hmore : text ++ '"' :: rest with
      | nil =>
          simp at hmore
      | cons d more =>
          rw [hmore] at htext
          simp [findComment, hquote, hback, htext]

theorem passes_quoted {s : String} (h : Printer.IsQuotable s) : Passes (Printer.quoted s) := by
  have htext : ∀ c ∈ s.toList, c ≠ '"' ∧ c ≠ '\\' := fun c hc => ⟨(h.2 c hc).1, (h.2 c hc).2.1⟩
  have hline : '\n' ∉ s.toList := fun hc => (h.2 _ hc).2.2 rfl
  constructor
  · simp [Printer.quoted, hline]
  · intro current found rest
    have hscan := scan_quoted htext ('"' :: current) found rest
    simp [Printer.quoted, scan, isQuote, hscan]
  · -- this scanner looks at two characters at once, so what follows a quote has to be named
    intro before rest
    have hfind := findComment_quoted htext ('"' :: before) rest
    simp only [Printer.quoted, List.cons_append, List.append_assoc, List.nil_append]
    cases hmore : s.toList ++ '"' :: rest with
    | nil =>
        simp at hmore
    | cons d more =>
        rw [hmore] at hfind
        simp [findComment, isQuote, hfind]

/-! ## Single statements -/

/-- A statement that can stand on a line of its own. -/
structure Single (s : List Char) : Prop where
  oneLine : '\n' ∉ s
  trim : Text.trim s = s
  start : ∃ c rest, s = c :: rest ∧ c ≠ '/'
  comment : findComment none [] s = none
  split : Statement.split s = [s]

/-- A piece of code that begins with part of a name, and the mark that ends a statement. -/
theorem Passes.single {c t : Char} {piece : List Char} (h : Passes piece)
    (hfirst : piece.head? = some c) (hc : Recognize.isNamePart c = true)
    (ht : t = ';' ∨ t = '\x7b') : Single (piece ++ [t]) := by
  rcases List.head?_eq_some_iff.1 hfirst with ⟨rest, rfl⟩
  have htrim : Text.trim (c :: rest ++ [t]) = c :: rest ++ [t] := by
    refine trim_of_ends rest (isBlank_of_isNamePart hc) ?_
    rcases ht with rfl | rfl
    · decide
    · decide
  have hend : Statement.scan none 0 (c :: rest).reverse [] [t] =
      emit (emit [] (t :: (c :: rest).reverse)) [] := by
    rcases ht with rfl | rfl
    · simp [Statement.scan, isQuote]
    · simp [Statement.scan, isQuote]
  have hemit : emit [] (t :: (c :: rest).reverse) = [c :: rest ++ [t]] := by
    have hback : (t :: (c :: rest).reverse).reverse = c :: rest ++ [t] := by simp
    simp only [emit, hback, htrim]
    simp
  have hline : '\n' ≠ t := by
    rcases ht with rfl | rfl
    · decide
    · decide
  constructor
  · simpa [hline] using h.oneLine
  · exact htrim
  · exact ⟨c, rest ++ [t], rfl, ne_of_class hc (by decide)⟩
  · rw [h.comment]
    rfl
  · rw [Statement.split, h.scan, List.append_nil, hend, hemit]
    rfl

/-- A statement on a line of its own that opens no block. -/
structure Ended (s : List Char) : Prop extends Single s where
  last : s.getLast? = some ';'

theorem Passes.ended {c : Char} {piece : List Char} (h : Passes piece)
    (hfirst : piece.head? = some c) (hc : Recognize.isNamePart c = true) :
    Ended (piece ++ [';']) where
  toSingle := h.single hfirst hc (.inl rfl)
  last := List.getLast?_concat

theorem single_closing : Single Printer.closing where
  oneLine := by decide
  trim := by decide
  start := ⟨'\x7d', [], rfl, by decide⟩
  comment := rfl
  split := by decide

end Statement

/-! ## Lines -/

namespace Reader

open Statement (Single)

/-- A line that holds a single statement, possibly indented. -/
theorem line_of_single {r : Reader} {s raw : List Char} (h : Single s) (hr : r.inComment = false)
    (hraw : Text.trim raw = Text.trim s) : r.line raw = (r.statement s).1 := by
  rcases h.start with ⟨c, rest, hs, hslash⟩
  -- neither scanner finds more than the statement itself
  have hsplit : Statement.splitComment s = (s, []) := by
    simp [Statement.splitComment, h.comment]
  have hcode : r.codeLine s = (r.statement s).1 := by
    simp only [codeLine, hsplit, h.split, statements, List.foldl_cons, List.foldl_nil]
    cases (r.statement s).2 with
    | none =>
        rfl
    | some spot =>
        rfl
  unfold line
  rw [hr, hraw, h.trim, ← hcode]
  simp only [Bool.false_eq_true, if_false]
  split
  · cases hs
  · exact absurd (List.cons.inj hs).1.symm hslash
  · exact absurd (List.cons.inj hs).1.symm hslash
  · rfl

theorem trim_comment {d : String} (h : Printer.IsComment d) :
    ∃ rest, Text.trim (Printer.comment d) = '/' :: '/' :: rest ∧ Text.trim rest = d.toList := by
  rcases List.eq_nil_or_concat d.toList with hnil | ⟨mid, t, hlast⟩
  · refine ⟨[], ?_, ?_⟩
    · rw [Printer.comment, hnil]
      decide
    · rw [hnil]
      rfl
  · have hblank : Text.isBlank t = false := by
      refine Text.isBlank_last_of_trim d.toList ?_
      rw [h.1, hlast]
      simp
    refine ⟨' ' :: d.toList, ?_, ?_⟩
    · have htrim :=
        Text.trim_of_ends ('/' :: ' ' :: mid) (show Text.isBlank '/' = false by decide) hblank
      rw [Printer.comment, hlast]
      simpa using htrim
    · have hblanks : ∀ c ∈ [' '], Text.isBlank c = true := List.all_eq_true.1 (by decide)
      have hspace := Text.trim_append_left hblanks d.toList
      rw [h.1] at hspace
      exact hspace

theorem line_comment {r : Reader} {d : String} {raw : List Char} (h : Printer.IsComment d)
    (hr : r.inComment = false) (hraw : Text.trim raw = Text.trim (Printer.comment d)) :
    r.line raw = { r with pending := r.pending ++ [d] } := by
  rcases trim_comment h with ⟨rest, htrim, hrest⟩
  unfold line
  rw [hr, hraw, htrim]
  simp [hrest]

theorem trim_indent (cs : List Char) : Text.trim ("  ".toList ++ cs) = Text.trim cs := by
  have hblanks : ∀ c ∈ "  ".toList, Text.isBlank c = true := List.all_eq_true.1 (by decide)
  exact Text.trim_append_left hblanks cs

/-- The comment lines above an item and the statement that declares it. -/
theorem foldl_line_documented {r : Reader} {indent s : List Char} {docs : List String}
    (hindent : ∀ cs, Text.trim (indent ++ cs) = Text.trim cs)
    (hdocs : ∀ d ∈ docs, Printer.IsComment d) (hs : Single s) (hr : r.inComment = false) :
    (Printer.documented indent docs s).foldl line r =
      ({ r with pending := r.pending ++ docs }.statement s).1 := by
  -- comment lines are gathered until the statement takes them
  induction docs generalizing r with
  | nil =>
      simp only [Printer.documented, List.map_nil, List.nil_append, List.foldl_cons, List.foldl_nil,
        List.append_nil]
      exact line_of_single hs hr (hindent s)
  | cons d docs ih =>
      have hline := line_comment (hdocs d (List.mem_cons_self ..)) hr (hindent (Printer.comment d))
      have hrest := ih (fun x hx => hdocs x (List.mem_cons_of_mem d hx))
        (r := { r with pending := r.pending ++ [d] }) hr
      simp only [Printer.documented, List.map_cons, List.cons_append, List.foldl_cons, hline]
      simpa [Printer.documented] using hrest

end Reader
end ApiPages

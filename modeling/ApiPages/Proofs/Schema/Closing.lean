import ApiPages.Proofs.Schema.Association
import ApiPages.Proofs.Schema.Indices

/-!
# Items that are closed

An item can grow while its block is open.  Here it is shown that a closed item stays as it is, and
with it that `IndexedReader` never uses an index that is out of range.

* `IndexedReader.IsClosed` is an item whose block is not open any more, `Kept` says that such items
  stay;
* `Step.inRange` and `Step.kept` say that a statement leaves every slot in range and every closed
  item alone, `Step.closing` that only a closing brace closes an item;
* `Within` is the invariant of the statements of a line, `Within.exists_row` carries it through a
  row of them;
* `KeptUpTo` allows for the trailing comment of the line that closed an item, `exists_reads` is one
  whole line and `exists_foldlM_line` any number of them;
* `IndexedReader.indices_in_range` puts it together for every sequence of lines.
-/

namespace ApiPages

open Recognize (Block)

/-! ## Slots that stay -/

namespace Slot

theorem InRange.congr {s s' : Schema} {q : Slot} (h : q.InRange s)
    (hitems : s'.items q.kind = s.items q.kind) :
    q.InRange s' := by
  cases q with
  | _ =>
      simp only [kind] at hitems
      simpa only [InRange, hitems] using h

/-- A slot stays in range when an item is put behind the others. -/
theorem InRange.concat {s : Schema} {q : Slot} (h : q.InRange s) (kind : Block) (x : kind.Item) :
    q.InRange (s.withItems kind (s.items kind ++ [x])) := by
  cases q with
  | item other i =>
      have hi : (s.items other)[i]? = some (s.items other)[i] := List.getElem?_eq_getElem h
      exact (List.getElem?_eq_some_iff.1 (Schema.getElem?_items_concat hi x)).1
  | member other i j =>
      rcases h with ⟨y, hy, hj⟩
      exact ⟨y, Schema.getElem?_items_concat hy x, hj⟩

/-- A slot stays in range when an item is exchanged for one with no fewer members. -/
theorem InRange.setItem {s : Schema} {q : Slot} (h : q.InRange s) {kind : Block} {i : Nat}
    {x x' : kind.Item} (hx : (s.items kind)[i]? = some x)
    (hle : (kind.members x).length ≤ (kind.members x').length) :
    q.InRange (s.setItem kind i x') := by
  cases q with
  | item other j =>
      simpa only [InRange, Schema.length_items_setItem] using h
  | member other j position =>
      rcases h with ⟨y, hy, hposition⟩
      by_cases hsame : kind = other ∧ i = j
      · rcases hsame with ⟨rfl, rfl⟩
        obtain rfl : y = x := Option.some.inj (hy.symm.trans hx)
        exact ⟨x', Schema.getElem?_items_setItem_self hx x', Nat.lt_of_lt_of_le hposition hle⟩
      · exact ⟨y, by rw [Schema.getElem?_items_setItem s hsame, hy], hposition⟩

end Slot

namespace IndexedReader

variable {start r r' r'' : IndexedReader} {s : List Char} {slot : Option Slot}

theorem Step.inRange (hstep : r.Step s r' slot) {q : Slot} (h : q.InRange r.schema) :
    q.InRange r'.schema := by
  cases hstep with
  | close _ =>
      exact h
  | @opening kind name _ _ _ _ =>
      exact h.concat kind _
  | declaration _ _ _ _ =>
      rw [schema_deepened]
      exact h.congr (Schema.items_headed r.schema s q.kind)
  | skip _ _ _ =>
      rwa [schema_deepened]
  | @member kind x m _ _ _ hx =>
      rw [schema_deepened]
      exact h.setItem hx (by simp)
  | pass _ _ _ =>
      rwa [schema_deepened]

/-! ## Closed items -/

/-- An item stands at the index, and its block is not open.  An item begins with its block open, and
`Step.closing` says which statement closes it. -/
def IsClosed (r : IndexedReader) (kind : Block) (i : Nat) (x : kind.Item) : Prop :=
  (r.schema.items kind)[i]? = some x ∧ ¬ (r.block = some kind ∧ r.current = i)

/-- Whatever is closed in `r` is closed in `r'`, and the same. -/
def Kept (r r' : IndexedReader) : Prop :=
  ∀ kind i x, r.IsClosed kind i x → r'.IsClosed kind i x

theorem Kept.refl (r : IndexedReader) : r.Kept r :=
  fun _ _ _ h => h

theorem Kept.trans (h : r.Kept r') (h' : r'.Kept r'') : r.Kept r'' :=
  fun kind i x hclosed => h' kind i x (h kind i x hclosed)

theorem kept_deepened (r : IndexedReader) (s : List Char) : r.Kept (r.deepened s) := by
  rcases deepened_eq r s with ⟨n, -, hdeep⟩
  rw [hdeep]
  exact Kept.refl r

theorem kept_close (r : IndexedReader) : r.Kept r.close :=
  fun _ _ _ h => ⟨h.1, fun hopen => h.2 ⟨(block_close hopen.1).2, hopen.2⟩⟩

/-- The item of a new block stands behind all others. -/
theorem kept_openBlock (r : IndexedReader) (kind : Block) (name : String) :
    r.Kept (r.openBlock kind name).1 := by
  intro other i x hclosed
  refine ⟨Schema.getElem?_items_concat hclosed.1 _, fun hopen => ?_⟩
  obtain rfl : kind = other := Option.some.inj hopen.1
  have hcurrent : (r.schema.items kind).length = i := hopen.2
  have hi := (List.getElem?_eq_some_iff.1 hclosed.1).1
  omega

/-- A member goes to the open item. -/
theorem kept_join {kind : Block} (hblock : r.block = some kind) (x : kind.Item) (m : kind.Member) :
    r.Kept (r.join kind x m) := by
  intro other i y hclosed
  have hother : ¬ (kind = other ∧ r.current = i) := by
    rintro ⟨rfl, hcurrent⟩
    exact hclosed.2 ⟨hblock, hcurrent⟩
  refine ⟨?_, hclosed.2⟩
  rw [join, Schema.getElem?_items_setItem _ hother, hclosed.1]

/-- No statement changes an item that is closed. -/
theorem Step.kept (hstep : r.Step s r' slot) : r.Kept r' := by
  cases hstep with
  | close _ =>
      exact kept_close r
  | opening _ _ _ _ =>
      exact kept_openBlock r _ _
  | declaration _ _ _ _ =>
      refine Kept.trans (fun kind i x hclosed => ?_) (kept_deepened (r.declaration s) s)
      exact ⟨by rw [IndexedReader.declaration, Schema.items_headed, hclosed.1], hclosed.2⟩
  | skip _ _ _ =>
      exact kept_deepened r s
  | member _ hblock _ _ =>
      exact (kept_join hblock _ _).trans (kept_deepened _ s)
  | pass _ _ _ =>
      exact kept_deepened r s

theorem isClosed_of_deepened {kind : Block} {i : Nat} {x : kind.Item}
    (h : (r.deepened s).IsClosed kind i x) :
    r.IsClosed kind i x := by
  rcases deepened_eq r s with ⟨n, -, hdeep⟩
  rw [hdeep] at h
  exact h

theorem isClosed_of_openBlock {kind other : Block} {name : String} {i : Nat} {x : kind.Item}
    (hblock : r.block = none) (h : (r.openBlock other name).1.IsClosed kind i x) :
    r.IsClosed kind i x := by
  have hitem := h.1
  simp only [openBlock] at hitem
  refine ⟨?_, by simp [hblock]⟩
  by_cases hkind : other = kind
  · subst hkind
    -- the last of the items is the one of the new block
    have hlast : (r.schema.items other).length ≠ i := fun hi => h.2 ⟨rfl, hi⟩
    rw [Schema.items_withItems] at hitem
    have hi := (List.getElem?_eq_some_iff.1 hitem).1
    rw [List.length_append, List.length_singleton] at hi
    rwa [List.getElem?_append_left (by omega)] at hitem
  · rwa [Schema.items_withItems_of_ne _ hkind] at hitem

theorem isClosed_of_join {kind other : Block} {y : other.Item} {m : other.Member} {i : Nat}
    {x : kind.Item} (hblock : r.block = some other) (h : (r.join other y m).IsClosed kind i x) :
    r.IsClosed kind i x := by
  have hother : ¬ (other = kind ∧ r.current = i) := by
    rintro ⟨rfl, hcurrent⟩
    exact h.2 ⟨hblock, hcurrent⟩
  rwa [IsClosed, join, Schema.getElem?_items_setItem _ hother] at h

/-- Nothing but the brace that brings an open item back to top level closes it. -/
theorem Step.closing (hstep : r.Step s r' slot) (h : r.Sound) {kind : Block} {i : Nat}
    {x : kind.Item} (hclosed : r'.IsClosed kind i x) (hopen : ∀ y, ¬ r.IsClosed kind i y) :
    s = ['\x7d'] ∧ r.block = some kind ∧ r.current = i ∧ r.depth = 1 := by
  cases hstep with
  | close hs =>
      have hitem : r.block = some kind ∧ r.current = i := by
        by_contra hother
        exact hopen x ⟨hclosed.1, hother⟩
      -- the block has ended, so no brace is open any more
      have hlowered : lowered r.depth = 0 := by
        by_contra hdepth
        refine hclosed.2 ⟨?_, hitem.2⟩
        simp only [IndexedReader.close, if_neg hdepth, hitem.1]
      have hdepth := h.depth_pos kind hitem.1
      rw [lowered, if_pos (by omega)] at hlowered
      exact ⟨hs, hitem.1, hitem.2, by omega⟩
  | opening _ hblock _ _ =>
      exact absurd (isClosed_of_openBlock hblock hclosed) (hopen x)
  | declaration _ _ _ _ =>
      have hdeclared := isClosed_of_deepened hclosed
      rw [IsClosed, IndexedReader.declaration, Schema.items_headed] at hdeclared
      exact absurd hdeclared (hopen x)
  | skip _ _ _ =>
      exact absurd (isClosed_of_deepened hclosed) (hopen x)
  | member _ hblock _ _ =>
      exact absurd (isClosed_of_join hblock (isClosed_of_deepened hclosed)) (hopen x)
  | pass _ _ _ =>
      exact absurd (isClosed_of_deepened hclosed) (hopen x)

/-! ## Rows of statements -/

/-- What holds between the statements of a line that began with `start`. -/
structure Within (start r : IndexedReader) (slot : Option Slot) : Prop where
  sound : r.Sound
  last : ∀ q, slot = some q → q.IsLast r.schema
  /-- The comment of the line is for no item that was closed before the line. -/
  fresh : ∀ q, slot = some q → ∀ x, ¬ start.IsClosed q.kind q.index x
  kept : start.Kept r

theorem within_start (h : r.Sound) : Within r r none where
  sound := h
  last := by simp
  fresh := by simp
  kept := Kept.refl r

theorem Within.found (h : Within start r slot) {found : Option Slot} (hstep : r.Step s r' found) :
    Within start r' (found.or slot) where
  sound := hstep.sound h.sound
  last q hq := by
    cases found with
    | none =>
        exact (h.last q hq).congr (hstep.items_eq q.kind)
    | some found =>
        cases hq
        exact (hstep.declared h.sound).1
  fresh q hq := by
    cases found with
    | none =>
        exact h.fresh q hq
    | some found =>
        cases hq
        -- what is declared belongs to an open item, and what was closed has stayed closed
        intro x hclosed
        exact ((h.kept.trans hstep.kept) _ _ x hclosed).2 (hstep.declared h.sound).2
  kept := h.kept.trans hstep.kept

/-- A row of statements is taken without a failure, as the reader does that goes by the last
item. -/
theorem Within.exists_row (h : Within start r slot) (stmts : List (List Char)) : ∃ r' slot',
    stmts.foldlM found? (r, slot) = some (r', slot') ∧ Within start r' slot' ∧ r.Kept r' ∧
      (∀ q : Slot, q.InRange r.schema → q.InRange r'.schema) ∧
      stmts.foldl Reader.found (r.toReader, slot.map Slot.spot) =
        (r'.toReader, slot'.map Slot.spot) := by
  induction stmts generalizing r slot with
  | nil =>
      exact ⟨r, slot, rfl, h, Kept.refl r, fun _ hq => hq, rfl⟩
  | cons s stmts ih =>
      rcases exists_step h.sound s with ⟨r₁, found, hstatement, hstep⟩
      -- the invariant lets the statement be taken, and holds again behind it
      rcases ih (h.found hstep) with ⟨r', slot', hrow, hwithin, hkept, hrange, hreader⟩
      refine ⟨r', slot', ?_, hwithin, hstep.kept.trans hkept, fun q hq =>
        hrange q (hstep.inRange hq), ?_⟩
      · rw [List.foldlM_cons, found?, hstatement]
        exact hrow
      · rw [List.foldl_cons, Reader.found, hstep.toReader h.sound, ← hreader, Option.map_or]

theorem exists_statements (h : r.Sound) (stmts : List (List Char)) : ∃ r' slot,
    r.statements? stmts = some (r', slot) ∧ Within r r' slot ∧
      r.toReader.statements stmts = (r'.toReader, slot.map Slot.spot) := by
  rcases (within_start h).exists_row stmts with ⟨r', slot, hrow, hwithin, -, -, hreader⟩
  exact ⟨r', slot, hrow, hwithin, hreader⟩

/-- Later in a line: closed items are the same, and slots that were found are in range. -/
theorem exists_statements_append (h : r.Sound) (stmts more : List (List Char)) :
    ∃ r₁ slot₁ r₂ slot₂,
    r.statements? stmts = some (r₁, slot₁) ∧ r.statements? (stmts ++ more) = some (r₂, slot₂) ∧
      r.toReader.statements stmts = (r₁.toReader, slot₁.map Slot.spot) ∧ r₁.Sound ∧ r₁.Kept r₂ ∧
      ∀ q, slot₁ = some q → q.InRange r₁.schema ∧ q.InRange r₂.schema := by
  rcases exists_statements h stmts with ⟨r₁, slot₁, hfirst, hwithin, hreader⟩
  rcases hwithin.exists_row more with ⟨r₂, slot₂, hmore, -, hkept, hrange, -⟩
  refine ⟨r₁, slot₁, r₂, slot₂, hfirst, ?_, hreader, hwithin.sound, hkept, fun q hq => ?_⟩
  · rw [statements?, List.foldlM_append, ← statements?, hfirst]
    exact hmore
  · have hin := (hwithin.last q hq).inRange
    exact ⟨hin, hrange q hin⟩

/-! ## The end of a line -/

/-- Whatever is closed in `r` is closed in `r'`, and the same up to a comment if it was closed after
`start`. -/
def KeptUpTo (start : IndexedReader) (comment : List Char) (r r' : IndexedReader) : Prop :=
  ∀ kind i x, r.IsClosed kind i x → ∃ x', r'.IsClosed kind i x' ∧
    (x' = x ∨ comment ≠ [] ∧ (∀ y, ¬ start.IsClosed kind i y) ∧
      kind.Noted (String.ofList comment) x x')

theorem Kept.keptUpTo (h : r.Kept r') (start : IndexedReader) (comment : List Char) :
    KeptUpTo start comment r r' :=
  fun kind i x hclosed => ⟨x, h kind i x hclosed, .inl rfl⟩

/-- What was closed before the line is the same behind it. -/
theorem KeptUpTo.kept {comment : List Char} (h : KeptUpTo start comment r r')
    (hkept : start.Kept r) :
    start.Kept r' := by
  intro kind i x hclosed
  rcases h kind i x (hkept kind i x hclosed) with ⟨x', hclosed', rfl | ⟨-, hfresh, -⟩⟩
  · exact hclosed'
  · exact absurd hclosed (hfresh x)

/-- Only the item at the slot has changed, and it was not closed before. -/
theorem keptUpTo_setItem {comment : List Char} {kind : Block} {i : Nat} {x x' : kind.Item}
    (hne : comment ≠ []) (hfresh : ∀ y, ¬ start.IsClosed kind i y)
    (hx : (r.schema.items kind)[i]? = some x) (hnoted : kind.Noted (String.ofList comment) x x') :
    KeptUpTo start comment r { r with schema := r.schema.setItem kind i x' } := by
  intro other j y hclosed
  by_cases hitem : kind = other ∧ i = j
  · rcases hitem with ⟨rfl, rfl⟩
    obtain rfl : x = y := Option.some.inj (hx.symm.trans hclosed.1)
    exact ⟨x', ⟨Schema.getElem?_items_setItem_self hx x', hclosed.2⟩, .inr ⟨hne, hfresh, hnoted⟩⟩
  · refine ⟨y, ⟨?_, hclosed.2⟩, .inl rfl⟩
    rw [Schema.getElem?_items_setItem _ hitem, hclosed.1]

/-- The comment behind the line finds what it is for. -/
theorem Within.exists_attach (h : Within start r slot) (comment : List Char) : ∃ r',
    r.attach? slot comment = some r' ∧ r'.Sound ∧ KeptUpTo start comment r r' ∧
      r'.toReader = r.toReader.noted (slot.map Slot.spot)
        (if comment.isEmpty then [] else [String.ofList comment]) := by
  have hsame := (Kept.refl r).keptUpTo start comment
  cases slot with
  | none =>
      exact ⟨r, rfl, h.sound, hsame, rfl⟩
  | some q =>
      cases hempty : comment.isEmpty with
      | true =>
          exact ⟨r, by simp [attach?, hempty], h.sound, hsame, rfl⟩
      | false =>
          have hne : comment ≠ [] := List.isEmpty_eq_false_iff.1 hempty
          rcases Schema.annotate?_of_isLast (h.last q rfl) (String.ofList comment) with
            ⟨hannotate, x, x', hx, hnoted, hset⟩
          refine ⟨{ r with schema := r.schema.annotate q.spot (String.ofList comment) }, ?_, ?_,
            ?_, rfl⟩
          · simp [attach?, hempty, hannotate]
          · rw [hset]
            exact h.sound.withSchema _ _ _ fun _ => Schema.length_items_setItem ..
          · rw [hset]
            exact keptUpTo_setItem hne (h.fresh q rfl) hx hnoted

/-! ## Lines -/

/-- The statements of a line; a line in a comment, a comment line and a blank line have none. -/
def lineStatements (r : IndexedReader) (raw : List Char) : List (List Char) :=
  Schema.statementsOf (Schema.codeLines r.inComment [raw])

/-- What one line does to a sound reader: `r₁` is the reader after the statements of the line, `r₂`
behind it. -/
structure Reads (r : IndexedReader) (raw : List Char) (r₁ r₂ : IndexedReader) : Prop where
  statements : ∃ slot, r.statements? (r.lineStatements raw) = some (r₁, slot)
  line : r.line? raw = some r₂
  sound : r₂.Sound
  kept : r.Kept r₁
  keptUpTo : KeptUpTo r (Statement.splitComment (Text.trim raw)).2 r₁ r₂
  toReader : r₂.toReader = r.toReader.line raw

/-- A line without code changes nothing but what waits. -/
theorem reads_of_lineStatements_eq_nil {raw : List Char} (h : r.Sound) (pending : List String)
    (inComment : Bool) (hcode : r.lineStatements raw = [])
    (hline : r.line? raw = some { r with pending, inComment })
    (hreader : r.toReader.line raw = { r.toReader with pending, inComment }) :
    r.Reads raw r { r with pending, inComment } where
  statements := ⟨none, by rw [hcode]; rfl⟩
  line := hline
  sound := h.withSchema r.schema pending inComment fun _ => rfl
  kept := Kept.refl r
  keptUpTo := Kept.keptUpTo (fun _ _ _ hclosed => hclosed) r _
  toReader := hreader.symm

/-- A sound reader reads every line, as the reader does that goes by the last item. -/
theorem exists_reads (h : r.Sound) (raw : List Char) : ∃ r₁ r₂, r.Reads raw r₁ r₂ := by
  have hsame : r.toReader.inComment = r.inComment := rfl
  cases hin : r.inComment with
  | true =>
      refine ⟨_, _,
        reads_of_lineStatements_eq_nil h (r.pending ++ Reader.commentText (Text.trim raw))
        (!Text.occurs ['*', '/'] (Text.trim raw)) ?_ ?_ ?_⟩
      · simp [lineStatements, hin, Schema.codeLines, Schema.statementsOf]
      · simp [line?, hin, blockComment]
      · simp [Reader.line, hin, Reader.blockComment_eq, toReader]
  | false =>
      rcases Schema.line_kind (Text.trim raw) with hblank | ⟨comment, hcomment⟩ | ⟨comment, hopen⟩ |
        ⟨hblank, hcomment, hopen⟩
      · refine ⟨_, _, reads_of_lineStatements_eq_nil h [] r.inComment ?_ ?_ ?_⟩
        · simp [lineStatements, hin, hblank, Schema.codeLines, Schema.statementsOf]
        · simp [line?, hin, hblank]
        · simp [Reader.line, hin, hblank, toReader]
      · refine ⟨_, _,
          reads_of_lineStatements_eq_nil h (r.pending ++ [String.ofList (Text.trim comment)])
          r.inComment ?_ ?_ ?_⟩
        · simp [lineStatements, hin, hcomment, Schema.codeLines, Schema.statementsOf]
        · simp [line?, hin, hcomment]
        · simp [Reader.line, hin, hcomment, toReader]
      · refine ⟨_, _, reads_of_lineStatements_eq_nil h (r.pending ++ Reader.commentText comment)
          (!Text.occurs ['*', '/'] comment) ?_ ?_ ?_⟩
        · simp [lineStatements, hin, hopen, Schema.codeLines, Schema.statementsOf]
        · simp [line?, hin, hopen, blockComment]
        · simp [Reader.line, hin, hopen, Reader.blockComment_eq, toReader]
      · -- a line of code is its statements and the comment behind them
        have hcode : r.lineStatements raw =
            Statement.split (Statement.splitComment (Text.trim raw)).1 := by
          have hlines : Schema.codeLines false [raw] = [Text.trim raw] := by
            simp only [Schema.codeLines]
          simp [lineStatements, hin, hlines, Schema.statementsOf]
        have hline : r.line? raw = r.codeLine? (Text.trim raw) := by
          simp only [line?, hin, Bool.false_eq_true, if_false]
        have hreader : r.toReader.line raw = r.toReader.codeLine (Text.trim raw) := by
          simp only [Reader.line, hsame, hin, Bool.false_eq_true, if_false]
        rcases exists_statements h (r.lineStatements raw) with ⟨r₁, slot, hrow, hwithin, htake⟩
        rcases hwithin.exists_attach (Statement.splitComment (Text.trim raw)).2 with
          ⟨r₂, hattach, hsound, hkeptUpTo, htoReader⟩
        refine ⟨r₁, r₂, ⟨slot, hrow⟩, ?_, hsound, hwithin.kept, hkeptUpTo, ?_⟩
        · rw [hcode] at hrow
          rw [hline]
          simp [codeLine?, hrow, hattach]
        · rw [hcode] at htake
          rw [hreader, Reader.codeLine_eq, htake, htoReader]

/-! ## All lines -/

theorem Reads.kept_line {raw : List Char} (h : r.Reads raw r' r'') : r.Kept r'' :=
  h.keptUpTo.kept h.kept

/-- All lines are read without a failure, and closed items stay. -/
theorem exists_foldlM_line (h : r.Sound) (lines : List (List Char)) : ∃ r',
    lines.foldlM line? r = some r' ∧ r'.Sound ∧ r.Kept r' ∧
      r'.toReader = lines.foldl Reader.line r.toReader := by
  induction lines generalizing r with
  | nil =>
      exact ⟨r, rfl, h, Kept.refl r, rfl⟩
  | cons raw lines ih =>
      rcases exists_reads h raw with ⟨_, r₁, hreads⟩
      rcases ih hreads.sound with ⟨r', hlines, hsound, hkept, hreader⟩
      refine ⟨r', ?_, hsound, hreads.kept_line.trans hkept, ?_⟩
      · rw [List.foldlM_cons, hreads.line]
        exact hlines
      · rw [hreader, hreads.toReader, List.foldl_cons]

/-! ## The end of a text -/

/-- The schema of the reader without the open item.  All other items stay at their indices. -/
structure Finished (r : IndexedReader) (s : Schema) : Prop where
  removed : ∀ kind, r.block = some kind → s.items kind = (r.schema.items kind).eraseIdx r.current
  others : ∀ kind, r.block ≠ some kind → s.items kind = r.schema.items kind
  closed : ∀ kind i x, (s.items kind)[i]? = some x ↔ r.IsClosed kind i x
  package : s.package = r.schema.package
  dialect : s.dialect = r.schema.dialect
  imports : s.imports = r.schema.imports

theorem finished_finish (h : r.Sound) : r.Finished r.toReader.finish := by
  rw [finish_toReader]
  cases hopen : r.block with
  | none =>
      exact
        { removed := by simp [hopen]
          others := fun _ _ => rfl
          closed := by simp [IsClosed, hopen]
          package := rfl
          dialect := rfl
          imports := rfl }
  | some kind =>
      have hlast := h.current_last kind hopen
      have hothers : ∀ other, kind ≠ other →
          (r.schema.withItems kind (r.schema.items kind).dropLast).items other =
            r.schema.items other :=
        fun other hne => Schema.items_withItems_of_ne _ hne _
      refine ⟨fun other hother => ?_, fun other hother => ?_, fun other i x => ?_, ?_, ?_, ?_⟩
      · obtain rfl : kind = other := Option.some.inj (hopen.symm.trans hother)
        have hlength : (r.schema.items kind).length - 1 = r.current := by
          omega
        rw [Schema.items_withItems, List.dropLast_eq_take, hlength,
          List.eraseIdx_eq_take_drop_succ, hlast, List.drop_length, List.append_nil]
      · exact hothers other fun hkind => hother (hopen.trans (congrArg some hkind))
      · rw [IsClosed, hopen, Option.some.injEq]
        by_cases hkind : kind = other
        · subst hkind
          rw [Schema.items_withItems, getElem?_dropLast_eq_some_iff hlast]
          simp
        · rw [hothers other hkind]
          simp [hkind]
      all_goals
        cases kind with
        | _ =>
            rfl

/-! ## Every sequence of lines -/

/-- Whatever the lines are, no index is ever out of range, and the reading is that of the reader
which goes by the last item.  After every statement of the next line the depth is not negative, an
open item is the last of its kind with its block at depth one or more, and what was found for the
trailing comment is in range then and up to the end of the line.  A closed item stays the same
through the rest of its line, up to the comment behind that line, and through all later lines.  At
the end the one open item is removed, and nothing else. -/
theorem indices_in_range (lines : List (List Char)) : ∃ r,
    readLines? lines = some r ∧ r.toReader = lines.foldl Reader.line {} ∧ r.Sound ∧
    -- after some statements of the next line, and after more of them
    (∀ stmts more, ∃ r₁ slot₁ r₂ slot₂,
      r.statements? stmts = some (r₁, slot₁) ∧ r.statements? (stmts ++ more) = some (r₂, slot₂) ∧
      r.toReader.statements stmts = (r₁.toReader, slot₁.map Slot.spot) ∧ r₁.Sound ∧ r₁.Kept r₂ ∧
      ∀ q, slot₁ = some q → q.InRange r₁.schema ∧ q.InRange r₂.schema) ∧
    -- behind the next line
    (∀ raw, ∃ r₁ slot r₂,
      r.statements? (r.lineStatements raw) = some (r₁, slot) ∧
      readLines? (lines ++ [raw]) = some r₂ ∧
      KeptUpTo r (Statement.splitComment (Text.trim raw)).2 r₁ r₂) ∧
    -- anywhere behind it
    (∀ later stmts, ∃ r₁ r₂ slot,
      readLines? (lines ++ later) = some r₁ ∧ r₁.statements? stmts = some (r₂, slot) ∧ r.Kept r₁ ∧
        r.Kept r₂) ∧
    -- and at the end
    r.finish? = some (Schema.ofLines lines) ∧ r.Finished (Schema.ofLines lines) := by
  rcases exists_foldlM_line sound_start lines with ⟨r, hlines, hsound, -, hreader⟩
  have hstart : toReader {} = {} := rfl
  have hmore : ∀ later, readLines? (lines ++ later) = later.foldlM line? r := by
    intro later
    rw [readLines?, List.foldlM_append, hlines]
    rfl
  have hfinish : r.toReader.finish = Schema.ofLines lines := by
    rw [hreader, hstart, Schema.ofLines]
  refine ⟨r, hlines, hreader, hsound, exists_statements_append hsound, fun raw => ?_,
    fun later stmts => ?_, ?_, ?_⟩
  · rcases exists_reads hsound raw with ⟨r₁, r₂, hreads⟩
    rcases hreads.statements with ⟨slot, hrow⟩
    refine ⟨r₁, slot, r₂, hrow, ?_, hreads.keptUpTo⟩
    rw [hmore, List.foldlM_cons, hreads.line]
    rfl
  · rcases exists_foldlM_line hsound later with ⟨r₁, hlater, hsound₁, hkept, -⟩
    rcases exists_statements hsound₁ stmts with ⟨r₂, slot, hrow, hwithin, -⟩
    exact ⟨r₁, r₂, slot, (hmore later).trans hlater, hrow, hkept, hkept.trans hwithin.kept⟩
  · rw [finish?_eq hsound, hfinish]
  · rw [← hfinish]
    exact finished_finish hsound

/-- A line that opens an item, and one with a member, the closing brace and a comment behind
both. -/
def openingLine : List Char :=
  "message A \x7b".toList

def closingLine : List Char :=
  "  bool b = 1; \x7d // Said.".toList

/-- The beginning of an item that is never closed. -/
def unfinishedLines : List (List Char) :=
  ["enum E \x7b".toList, "  X = 0;".toList]

def openReader : IndexedReader :=
  { schema := { messages := [{ name := "A" }] }, block := some .message, depth := 1 }

def closedItem (docs : List String) : Message :=
  { name := "A", fields := [{ type := "bool", name := "b", number := "1", docs }] }

def closedReader (docs : List String) : IndexedReader :=
  { schema := { messages := [closedItem docs] } }

def unfinishedReader : IndexedReader :=
  { schema :=
      { messages := [closedItem ["Said."]]
        enums := [{ name := "E", values := [{ name := "X", number := "0" }] }] }
    block := some .enum
    depth := 1 }

theorem indices_in_range_unfinished :
    openReader.statements? (openReader.lineStatements closingLine) =
        some (closedReader [], some (.member .message 0 0)) ∧
      KeptUpTo openReader "Said.".toList (closedReader []) (closedReader ["Said."]) ∧
      (closedReader ["Said."]).IsClosed .message 0 (closedItem ["Said."]) ∧
      (closedReader ["Said."]).Kept unfinishedReader ∧ unfinishedReader.Sound ∧
      unfinishedReader.Finished { messages := [closedItem ["Said."]] } := by
  have hopen : readLines? [openingLine] = some openReader := by
    decide +kernel
  have hclosed : readLines? ([openingLine] ++ [closingLine]) = some (closedReader ["Said."]) := by
    decide +kernel
  have hunfinished : readLines? ([openingLine, closingLine] ++ unfinishedLines) =
      some unfinishedReader := by
    decide +kernel
  have hrow : openReader.statements? (openReader.lineStatements closingLine) =
      some (closedReader [], some (.member .message 0 0)) := by
    decide +kernel
  have hcomment : (Statement.splitComment (Text.trim closingLine)).2 = "Said.".toList := by
    decide +kernel
  have hschema : Schema.ofLines ([openingLine, closingLine] ++ unfinishedLines) =
      { messages := [closedItem ["Said."]] } := by
    decide +kernel
  refine ⟨hrow, ?_, ⟨rfl, by decide⟩, ?_, ?_⟩
  · rcases indices_in_range [openingLine] with ⟨r, hr, -, -, -, hend, -⟩
    rcases hend closingLine with ⟨r₁, slot, r₂, hrow₁, hr₂, hkeptUpTo⟩
    obtain rfl : openReader = r := Option.some.inj (hopen.symm.trans hr)
    obtain rfl : closedReader ["Said."] = r₂ := Option.some.inj (hclosed.symm.trans hr₂)
    cases hrow.symm.trans hrow₁
    rwa [hcomment] at hkeptUpTo
  · rcases indices_in_range [openingLine, closingLine] with ⟨r, hr, -, -, -, -, hlater, -⟩
    rcases hlater unfinishedLines [] with ⟨r₃, -, -, hr₃, -, hkept, -⟩
    obtain rfl : closedReader ["Said."] = r := Option.some.inj (hclosed.symm.trans hr)
    obtain rfl : unfinishedReader = r₃ := Option.some.inj (hunfinished.symm.trans hr₃)
    exact hkept
  · rcases indices_in_range ([openingLine, closingLine] ++ unfinishedLines) with
      ⟨r, hr, -, hsound, -, -, -, -, hfinished⟩
    obtain rfl : unfinishedReader = r := Option.some.inj (hunfinished.symm.trans hr)
    rw [hschema] at hfinished
    exact ⟨hsound, hfinished⟩

end IndexedReader
end ApiPages

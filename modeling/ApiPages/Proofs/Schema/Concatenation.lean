import ApiPages.Proofs.Schema.Nesting
import ApiPages.Proofs.Schema.Steps

/-!
# Reading one text after another

A reader that has come back to top level starts afresh, except that what it reads next is added to
what it has.  `Reader.after` is a reader with a schema put in front of its own.

* `Reader.statement_after` and `Reader.line_after` say that a reader does not look at what is in
  front;
* `Schema.parse_append` says that a text after a closed one adds its own schema.
-/

namespace ApiPages

open Recognize (Block)

namespace Schema

/-! ## Items behind other items -/

/-- A comment goes to the last item, which is one of the second schema. -/
theorem append_annotate (a : Schema) {b : Schema} {spot : Spot} (h : b.HasItem spot.block)
    (comment : String) :
    (a ++ b).annotate spot comment = a ++ b.annotate spot comment := by
  cases spot with
  | _ =>
      simp_all [annotate, append_def, followedBy, modifyLast_append, HasItem, Spot.block]

end Schema

namespace Reader

/-- The reader with a schema in front of its own. -/
def after (base : Schema) (r : Reader) : Reader :=
  { r with schema := base ++ r.schema }

/-! ## Statements -/

theorem declaration_after (base : Schema) (r : Reader) (s : List Char) :
    (r.after base).declaration s = (r.declaration s).after base := by
  unfold declaration
  cases hdialect : Recognize.dialect? s with
  | some dialect =>
      have hne : dialect ≠ "" := fun h => Nesting.dialect?_ne_empty (h ▸ hdialect)
      simp [after, Schema.append_def, Schema.followedBy, hne]
  | none =>
      cases hpackage : Recognize.package? s with
      | some package =>
          have hne : package ≠ "" := fun h => Nesting.package?_ne_empty (h ▸ hpackage)
          simp [after, Schema.append_def, Schema.followedBy, hne]
      | none =>
          cases Recognize.import? s with
          | some path =>
              simp [after, Schema.append_def, Schema.followedBy]
          | none =>
              rfl

theorem openBlock_after (base : Schema) (r : Reader) (block : Block) (name : String) :
    (r.after base).openBlock block name =
      ((r.openBlock block name).1.after base, (r.openBlock block name).2) := by
  cases block with
  | _ =>
      simp [openBlock, after, Schema.append_def, Schema.followedBy]

/-- A member goes to the last item of its kind. -/
theorem member_after (base : Schema) {r : Reader} {block : Block} (h : r.schema.HasItem block)
    (s : List Char) :
    (r.after base).member block s = ((r.member block s).1.after base, (r.member block s).2) := by
  unfold member
  cases block with
  | service =>
      cases Recognize.rpc? s with
      | none =>
          rfl
      | some rpc =>
          simp only [after, Schema.append_def, Schema.followedBy, modifyLast_append _ _ h]
  | message =>
      cases Recognize.field? s with
      | none =>
          rfl
      | some field =>
          simp only [after, Schema.append_def, Schema.followedBy, modifyLast_append _ _ h]
  | enum =>
      cases Recognize.enumValue? s with
      | none =>
          rfl
      | some value =>
          simp only [after, Schema.append_def, Schema.followedBy, modifyLast_append _ _ h]

theorem deepened_after (base : Schema) (r : Reader) (s : List Char) :
    (r.after base).deepened s = (r.deepened s).after base := by
  unfold deepened
  split
  · rfl
  · rfl

/-- A statement means the same whatever schema is in front. -/
theorem statement_after (base : Schema) {r : Reader} (h : r.Founded) (s : List Char) :
    (r.after base).statement s = ((r.statement s).1.after base, (r.statement s).2) := by
  have hblock : (r.after base).block = r.block := rfl
  have hdepth : (r.after base).depth = r.depth := rfl
  rw [statement_eq, statement_eq r, hblock, hdepth]
  split
  · rfl
  · cases hopen : r.block with
    | some block =>
        simp only [member_after base (h block hopen), deepened_after]
    | none =>
        dsimp only
        split
        · cases opening? s with
          | some header =>
              simp only [openBlock_after]
          | none =>
              simp only [declaration_after, deepened_after]
        · rw [deepened_after]

/-! ## Rows of statements -/

theorem statements_after (base : Schema) {r : Reader} (h : r.Founded) (stmts : List (List Char)) :
    (r.after base).statements stmts =
      ((r.statements stmts).1.after base, (r.statements stmts).2) := by
  induction stmts generalizing r with
  | nil =>
      rfl
  | cons s stmts ih =>
      rw [statements_cons, statements_cons, statement_after base h, ih (founded_statement s h)]

/-! ## Lines -/

theorem blockComment_after (base : Schema) (r : Reader) (line : List Char) :
    (r.after base).blockComment line = (r.blockComment line).after base := by
  rw [blockComment_eq, blockComment_eq]
  rfl

theorem codeLine_after (base : Schema) {r : Reader} (h : r.Founded) (line : List Char) :
    (r.after base).codeLine line = (r.codeLine line).after base := by
  unfold codeLine
  simp only [statements_after base h]
  cases hspot : (r.statements (Statement.split (Statement.splitComment line).1)).2 with
  | none =>
      rfl
  | some spot =>
      have hitem := hasItem_of_spots h hspot
      dsimp only
      split
      · rfl
      · simp only [after, Schema.append_annotate base hitem]

theorem line_after (base : Schema) {r : Reader} (h : r.Founded) (raw : List Char) :
    (r.after base).line raw = (r.line raw).after base := by
  have hin : (r.after base).inComment = r.inComment := rfl
  unfold line
  rw [hin]
  dsimp only
  split
  · exact blockComment_after base r (Text.trim raw)
  · split
    · rfl
    · rfl
    · next rest _ => exact blockComment_after base { r with inComment := true } rest
    · exact codeLine_after base h (Text.trim raw)

theorem foldl_line_after (base : Schema) {r : Reader} (h : r.Founded) (lines : List (List Char)) :
    lines.foldl line (r.after base) = (lines.foldl line r).after base := by
  induction lines generalizing r with
  | nil =>
      rfl
  | cons raw lines ih =>
      rw [List.foldl_cons, List.foldl_cons, line_after base h, ih (founded_line h raw)]

/-- The item that is dropped at the end is one of the second schema. -/
theorem finish_after (base : Schema) {r : Reader} (h : r.Founded) :
    (r.after base).finish = base ++ r.finish := by
  have hblock : (r.after base).block = r.block := rfl
  unfold finish
  rw [hblock]
  cases hopen : r.block with
  | none =>
      rfl
  | some block =>
      have hitem := h block hopen
      cases block with
      | _ =>
          simp_all [after, Schema.append_def, Schema.followedBy, Schema.HasItem,
            List.dropLast_append_of_ne_nil]

end Reader

/-! ## Texts -/

/-- The reader is at top level and outside block comments. -/
structure Reader.IsClosed (r : Reader) : Prop where
  block : r.block = none
  depth : r.depth = 0
  inComment : r.inComment = false

namespace Schema

/-- The reader after the last line of a text. -/
def readerAfter (text : String) : Reader :=
  (text.toList.splitOn '\n').foldl Reader.line {}

theorem finish_readerAfter (text : String) : (readerAfter text).finish = parse text :=
  rfl

theorem splitOn_gap (a b : String) : (a ++ "\n\n" ++ b).toList.splitOn '\n' =
    a.toList.splitOn '\n' ++ [] :: b.toList.splitOn '\n' := by
  have hcut : (a.toList ++ '\n' :: '\n' :: b.toList).splitOn '\n' =
      a.toList.splitOn '\n' ++ ('\n' :: b.toList).splitOn '\n' :=
    List.splitOnP_append_cons a.toList ('\n' :: b.toList) rfl
  have hnext : ('\n' :: b.toList).splitOn '\n' = [] :: b.toList.splitOn '\n' :=
    List.splitOnP_append_cons [] b.toList rfl
  rw [← hnext, ← hcut]
  simp

/-- A text whose blocks and comments are closed, and another text after an empty line: the second
one is read as if it stood alone. -/
theorem parse_append {a : String} (h : (readerAfter a).IsClosed) (b : String) :
    parse (a ++ "\n\n" ++ b) = parse a ++ parse b := by
  rcases h with ⟨hblock, hdepth, hcomment⟩
  -- the empty line drops what is pending, so that only the schema is left of the first text
  have hgap : (readerAfter a).line [] = Reader.after (parse a) {} := by
    have hfinish : parse a = (readerAfter a).schema := by
      rw [← finish_readerAfter, Reader.finish, hblock]
    rw [hfinish]
    unfold Reader.line Reader.after
    simp only [hcomment]
    cases hr : readerAfter a with
    | mk schema block depth pending inComment =>
        simp_all
        rfl
  have hstart : Reader.Founded {} := Reader.founded_of_block_eq_none rfl
  calc
    parse (a ++ "\n\n" ++ b)
        = ((b.toList.splitOn '\n').foldl Reader.line ((readerAfter a).line [])).finish := by
          rw [parse, ofLines, splitOn_gap, List.foldl_append]
          rfl
    _ = (((b.toList.splitOn '\n').foldl Reader.line {}).after (parse a)).finish := by
          rw [hgap, Reader.foldl_line_after _ hstart]
    _ = parse a ++ parse b :=
          Reader.finish_after _ (Reader.founded_foldl_line hstart _)

/-- A text that ends in a comment line, at top level. -/
def paletteText : String :=
  "syntax = \"proto2\";\npackage a;\n// One colour.\nmessage C \x7b\n" ++
    "  bool red = 1; // Or not.\n\x7d\n// Left."

/-- A text that names a package again and ends inside a block. -/
def mixerText : String :=
  "package b;\nmessage Mix \x7b \x7d // Of colours.\n" ++
    "service Mixer \x7b\n  rpc Stir(Mix) returns (Mix);"

theorem parse_append_palette : (readerAfter paletteText).IsClosed ∧
    parse (paletteText ++ "\n\n" ++ mixerText) = parse paletteText ++ parse mixerText ∧
    parse paletteText ++ parse mixerText =
      { package := "b"
        dialect := "proto2"
        messages := [
          { name := "C"
            docs := ["One colour."]
            fields := [{ type := "bool", name := "red", number := "1", docs := ["Or not."] }] },
          { name := "Mix", docs := ["Of colours."] }] } := by
  have hpalette : readerAfter paletteText =
      { schema :=
          { package := "a"
            dialect := "proto2"
            messages := [
              { name := "C"
                docs := ["One colour."]
                fields :=
                  [{ type := "bool", name := "red", number := "1", docs := ["Or not."] }] }] }
        pending := ["Left."] } := by
    decide +kernel
  have hmixer : parse mixerText =
      { package := "b", messages := [{ name := "Mix", docs := ["Of colours."] }] } := by
    decide +kernel
  have hclosed : (readerAfter paletteText).IsClosed := by
    rw [hpalette]
    exact ⟨rfl, rfl, rfl⟩
  refine ⟨hclosed, parse_append hclosed mixerText, ?_⟩
  rw [← finish_readerAfter paletteText, hpalette, hmixer]
  decide

end Schema
end ApiPages

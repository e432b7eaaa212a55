import ApiPages.Schema.Reader

/-!
# Schemas without their documentation

Comments never decide what a schema declares.  `Schema.undocumented` drops them, `Reader.bare` drops
everything about a reader that has to do with them, and what remains of a reader after a line
depends only on what remained of it before and on the statements of the line.

* `Schema.stream` are the statements of a text in order, comments left out;
* `Reader.take` reads a row of statements;
* `Schema.undocumented_parse` says that reading a text and reading its statements agree up to
  documentation.
-/

namespace ApiPages

open Recognize (Block)

/-! ## Dropping documentation -/

def Rpc.undocumented (r : Rpc) : Rpc :=
  { r with docs := [] }

def Service.undocumented (s : Service) : Service :=
  { s with docs := [], rpcs := s.rpcs.map Rpc.undocumented }

def MessageField.undocumented (f : MessageField) : MessageField :=
  { f with docs := [] }

def Message.undocumented (m : Message) : Message :=
  { m with docs := [], fields := m.fields.map MessageField.undocumented }

def EnumValue.undocumented (v : EnumValue) : EnumValue :=
  { v with docs := [] }

def EnumDecl.undocumented (e : EnumDecl) : EnumDecl :=
  { e with docs := [], values := e.values.map EnumValue.undocumented }

/-- The schema with all comments dropped. -/
def Schema.undocumented (s : Schema) : Schema :=
  { s with
    services := s.services.map Service.undocumented
    messages := s.messages.map Message.undocumented
    enums := s.enums.map EnumDecl.undocumented }

/-! ## The last item of a list -/

theorem modifyLast_append_singleton {α : Type} (f : α → α) (l : List α) (a : α) :
    modifyLast f (l ++ [a]) = l ++ [f a] := by
  induction l with
  | nil =>
      rfl
  | cons b l ih =>
      cases l with
      | nil =>
          rfl
      | cons c l =>
          exact congrArg (b :: ·) ih

/-- A map passes a change of the last element when it passes the change itself. -/
theorem map_modifyLast {α β : Type} {f : α → α} {g : α → β} {f' : β → β}
    (h : ∀ a, g (f a) = f' (g a)) (l : List α) :
    (modifyLast f l).map g = modifyLast f' (l.map g) := by
  rcases List.eq_nil_or_concat l with rfl | ⟨l, a, rfl⟩
  · rfl
  · simp [modifyLast_append_singleton, h]

/-- A map that does not see the change of the last element. -/
theorem map_modifyLast_of_eq {α β : Type} {f : α → α} {g : α → β} (h : ∀ a, g (f a) = g a)
    (l : List α) : (modifyLast f l).map g = l.map g := by
  rcases List.eq_nil_or_concat l with rfl | ⟨l, a, rfl⟩
  · rfl
  · simp [modifyLast_append_singleton, h]

/-- A trailing comment is documentation. -/
theorem Schema.undocumented_annotate (s : Schema) (spot : Spot) (comment : String) :
    (s.annotate spot comment).undocumented = s.undocumented := by
  cases spot with
  | service | message | enum =>
      simp only [annotate, undocumented]
      rw [map_modifyLast_of_eq]
      intro item
      rfl
  -- the comment goes to the last member of the last item, two lists deep
  | rpc =>
      simp only [annotate, undocumented]
      rw [map_modifyLast_of_eq]
      intro service
      simp only [Service.undocumented]
      rw [map_modifyLast_of_eq]
      intro rpc
      rfl
  | field =>
      simp only [annotate, undocumented]
      rw [map_modifyLast_of_eq]
      intro message
      simp only [Message.undocumented]
      rw [map_modifyLast_of_eq]
      intro field
      rfl
  | value =>
      simp only [annotate, undocumented]
      rw [map_modifyLast_of_eq]
      intro decl
      simp only [EnumDecl.undocumented]
      rw [map_modifyLast_of_eq]
      intro value
      rfl

/-! ## Readers without documentation -/

namespace Reader

/-- The reader with everything dropped that has to do with comments. -/
def bare (r : Reader) : Reader :=
  { schema := r.schema.undocumented, block := r.block, depth := r.depth }

/-- Reads a row of statements. -/
def take (r : Reader) (stmts : List (List Char)) : Reader :=
  stmts.foldl (fun r s => (r.statement s).1) r

theorem take_cons (r : Reader) (s : List Char) (stmts : List (List Char)) :
    r.take (s :: stmts) = (r.statement s).1.take stmts :=
  rfl

theorem take_append (r : Reader) (stmts more : List (List Char)) :
    r.take (stmts ++ more) = (r.take stmts).take more :=
  List.foldl_append

theorem bare_openBlock (r : Reader) (block : Block) (name : String) :
    (r.openBlock block name).1.bare = (r.bare.openBlock block name).1 := by
  cases block with
  | _ =>
      simp [bare, openBlock, Schema.undocumented, Service.undocumented, Message.undocumented,
        EnumDecl.undocumented]

theorem bare_declaration (r : Reader) (s : List Char) :
    (r.declaration s).bare = r.bare.declaration s := by
  unfold declaration
  cases Recognize.dialect? s with
  | some dialect =>
      rfl
  | none =>
      cases Recognize.package? s with
      | some package =>
          rfl
      | none =>
          cases Recognize.import? s with
          | some path =>
              rfl
          | none =>
              rfl

theorem bare_member (r : Reader) (block : Block) (s : List Char) :
    (r.member block s).1.bare = (r.bare.member block s).1 := by
  cases block with
  | service =>
      cases hrpc : Recognize.rpc? s with
      | none =>
          simp only [member, hrpc]
      | some rpc =>
          simp only [member, hrpc, bare, Schema.undocumented]
          rw [map_modifyLast]
          intro service
          simp [Service.undocumented, Rpc.undocumented]
  | message =>
      cases hfield : Recognize.field? s with
      | none =>
          simp only [member, hfield]
      | some field =>
          simp only [member, hfield, bare, Schema.undocumented]
          rw [map_modifyLast]
          intro message
          simp [Message.undocumented, MessageField.undocumented]
  | enum =>
      cases hvalue : Recognize.enumValue? s with
      | none =>
          simp only [member, hvalue]
      | some value =>
          simp only [member, hvalue, bare, Schema.undocumented]
          rw [map_modifyLast]
          intro decl
          simp [EnumDecl.undocumented, EnumValue.undocumented]

theorem bare_inner (r : Reader) (s : List Char) : (r.inner s).1.bare = (r.bare.inner s).1 := by
  have hblock : r.bare.block = r.block := rfl
  have hdepth : r.bare.depth = r.depth := rfl
  unfold inner
  -- both readers branch on the same block and depth
  rw [hblock, hdepth]
  cases r.block with
  | none =>
      by_cases htop : r.depth == 0
      · simp only [htop, if_true, ← bare_declaration]
        split
        · rfl
        · rfl
      · simp only [htop, Bool.false_eq_true, if_false]
        split
        · rfl
        · rfl
  | some block =>
      simp only [← bare_member]
      split
      · rfl
      · rfl

/-- Statements do not look at comments. -/
theorem bare_statement (r : Reader) (s : List Char) :
    (r.statement s).1.bare = (r.bare.statement s).1 := by
  have hblock : r.bare.block = r.block := rfl
  have hdepth : r.bare.depth = r.depth := rfl
  unfold statement
  rw [hblock, hdepth]
  split
  · rfl
  · split
    · cases Recognize.header? s with
      | none =>
          exact bare_inner r s
      | some header =>
          exact bare_openBlock r header.1 header.2
    · exact bare_inner r s

theorem bare_take (r : Reader) (stmts : List (List Char)) :
    (r.take stmts).bare = r.bare.take stmts := by
  induction stmts generalizing r with
  | nil =>
      rfl
  | cons s stmts ih =>
      rw [take_cons, take_cons, ih, bare_statement]

theorem statements_fst (r : Reader) (stmts : List (List Char)) :
    (r.statements stmts).1 = r.take stmts :=
  (List.foldl_hom Prod.fst fun _ _ => rfl).symm

/-! ## Comment lines -/

/-- A comment line changes the pending comment and may end the block comment. -/
theorem exists_blockComment_eq (r : Reader) (line : List Char) :
    ∃ pending, r.blockComment line =
      { r with inComment := r.inComment && !Text.occurs ['*', '/'] line, pending } := by
  -- what is added depends on whether any text is left of the line, and only that
  have hadd : ∀ (r : Reader) (body : List Char), ∃ pending,
      (if body.isEmpty then r else { r with pending := r.pending ++ [String.ofList body] }) =
        { r with pending } := by
    intro r body
    split
    · exact ⟨r.pending, rfl⟩
    · exact ⟨_, rfl⟩
  unfold blockComment Text.occurs
  cases Text.cut? ['*', '/'] line with
  | none =>
      rcases hadd r _ with ⟨pending, h⟩
      exact ⟨pending, h.trans (by simp)⟩
  | some parts =>
      rcases hadd { r with inComment := false } _ with ⟨pending, h⟩
      exact ⟨pending, h.trans (by simp)⟩

theorem bare_blockComment (r : Reader) (line : List Char) :
    (r.blockComment line).bare = r.bare := by
  rcases exists_blockComment_eq r line with ⟨pending, h⟩
  rw [h]
  rfl

theorem inComment_blockComment {r : Reader} (h : r.inComment = true) (line : List Char) :
    (r.blockComment line).inComment = !Text.occurs ['*', '/'] line := by
  rcases exists_blockComment_eq r line with ⟨pending, heq⟩
  rw [heq, h, Bool.true_and]

/-! ## Block comments

Only lines begin and end a block comment, statements leave it alone. -/

theorem inComment_member (r : Reader) (block : Block) (s : List Char) :
    (r.member block s).1.inComment = r.inComment := by
  unfold member
  cases block with
  | _ =>
      dsimp only
      split
      · rfl
      · rfl

theorem inComment_declaration (r : Reader) (s : List Char) :
    (r.declaration s).inComment = r.inComment := by
  unfold declaration
  cases Recognize.dialect? s with
  | some dialect =>
      rfl
  | none =>
      cases Recognize.package? s with
      | some package =>
          rfl
      | none =>
          cases Recognize.import? s with
          | some path =>
              rfl
          | none =>
              rfl

theorem inComment_inner (r : Reader) (s : List Char) : (r.inner s).1.inComment = r.inComment := by
  unfold inner
  cases r.block with
  | none =>
      dsimp only
      by_cases htop : (r.depth == 0) = true
      · rw [if_pos htop]
        split
        · exact inComment_declaration r s
        · exact inComment_declaration r s
      · rw [if_neg htop]
        split
        · rfl
        · rfl
  | some block =>
      dsimp only
      split
      · exact inComment_member r block s
      · exact inComment_member r block s

theorem inComment_statement (r : Reader) (s : List Char) :
    (r.statement s).1.inComment = r.inComment := by
  unfold statement
  split
  · rfl
  · split
    · cases Recognize.header? s with
      | none =>
          exact inComment_inner r s
      | some header =>
          rfl
    · exact inComment_inner r s

theorem inComment_take (r : Reader) (stmts : List (List Char)) :
    (r.take stmts).inComment = r.inComment := by
  induction stmts generalizing r with
  | nil =>
      rfl
  | cons s stmts ih =>
      rw [take_cons, ih, inComment_statement]

/-! ## Lines of code -/

/-- A line of code is its statements and, up to documentation, nothing else. -/
theorem codeLine_spec (r : Reader) (line : List Char) :
    (r.codeLine line).bare = r.bare.take (Statement.split (Statement.splitComment line).1) ∧
      (r.codeLine line).inComment = r.inComment := by
  have hfst := statements_fst r (Statement.split (Statement.splitComment line).1)
  unfold codeLine
  cases hrun : r.statements (Statement.split (Statement.splitComment line).1) with
  | mk r' spot =>
      rw [hrun] at hfst
      rw [← bare_take, ← hfst, ← inComment_take r (Statement.split (Statement.splitComment line).1),
        ← hfst]
      simp only [hrun]
      -- a comment after the code is added to the item that the line declared, if it declared one
      cases spot with
      | none =>
          exact ⟨rfl, rfl⟩
      | some spot =>
          dsimp only
          split
          · exact ⟨rfl, rfl⟩
          · refine ⟨?_, rfl⟩
            simp only [bare, Schema.undocumented_annotate]

end Reader

namespace Schema

/-- The trimmed lines that hold code: outside block comments, not blank and no comment line.  A line
that begins with a block comment holds no code, even after the end of the comment. -/
def codeLines : Bool → List (List Char) → List (List Char)
  | _, [] => []
  | true, raw :: rest => codeLines (!Text.occurs ['*', '/'] (Text.trim raw)) rest
  | false, raw :: rest =>
      match Text.trim raw with
      | [] => codeLines false rest
      | '/' :: '/' :: _ => codeLines false rest
      | '/' :: '*' :: comment => codeLines (!Text.occurs ['*', '/'] comment) rest
      | line => line :: codeLines false rest

/-- The statements of some lines. -/
def statementsOf (lines : List (List Char)) : List (List Char) :=
  lines.flatMap fun line => Statement.split (Statement.splitComment line).1

/-- The statements of a text in order, comments left out. -/
def stream (text : String) : List (List Char) :=
  statementsOf (codeLines false (text.toList.splitOn '\n'))

/-- Outside a comment a trimmed line is blank, a comment line, the start of a comment, or code. -/
theorem line_kind (line : List Char) :
    line = [] ∨ (∃ comment, line = '/' :: '/' :: comment) ∨
      (∃ comment, line = '/' :: '*' :: comment) ∨
      (line ≠ [] ∧ (∀ comment, line ≠ '/' :: '/' :: comment) ∧ ∀ comment,
        line ≠ '/' :: '*' :: comment) := by
  by_cases hblank : line = []
  · exact .inl hblank
  by_cases hcomment : ∃ comment, line = '/' :: '/' :: comment
  · exact .inr (.inl hcomment)
  by_cases hopen : ∃ comment, line = '/' :: '*' :: comment
  · exact .inr (.inr (.inl hopen))
  exact .inr (.inr (.inr ⟨hblank, not_exists.1 hcomment, not_exists.1 hopen⟩))

theorem bare_foldl_line (lines : List (List Char)) (r : Reader) :
    (lines.foldl Reader.line r).bare = r.bare.take
      (statementsOf (codeLines r.inComment lines)) := by
  induction lines generalizing r with
  | nil =>
      cases r.inComment with
      | _ =>
          rfl
  | cons raw lines ih =>
      rw [List.foldl_cons, ih]
      cases hin : r.inComment with
      | true =>
          unfold Reader.line
          simp only [hin, if_true, codeLines, Reader.bare_blockComment,
            Reader.inComment_blockComment hin]
      | false =>
          -- only a line of code moves the reader, the others change what is pending
          rcases line_kind (Text.trim raw) with
            hblank | ⟨_, hcomment⟩ | ⟨_, hopen⟩ | ⟨hblank, hcomment, hopen⟩
          · simp [Reader.line, codeLines, hin, hblank]
            rfl
          · simp [Reader.line, codeLines, hin, hcomment, Reader.bare]
          · simp [Reader.line, codeLines, hin, hopen, Reader.bare_blockComment,
              Reader.inComment_blockComment]
            rfl
          · rcases Reader.codeLine_spec r (Text.trim raw) with ⟨hbare, hstay⟩
            -- both functions come to their last branch, since the line is none of the other kinds
            have hcode : codeLines false (raw :: lines) =
                Text.trim raw :: codeLines false lines := by
              simp only [codeLines]
            have hline : r.line raw = r.codeLine (Text.trim raw) := by
              simp only [Reader.line, hin, Bool.false_eq_true, if_false]
            rw [hcode, hline, hbare, hstay, hin, ← Reader.take_append]
            rfl

theorem undocumented_finish (r : Reader) : r.finish.undocumented = r.bare.finish := by
  unfold Reader.finish Reader.bare
  cases r.block with
  | none =>
      rfl
  | some block =>
      -- the open item is dropped, and dropping the last element commutes with a map
      cases block with
      | _ =>
          simp [undocumented, List.map_dropLast]

/-- Up to documentation, reading a text is reading its statements. -/
theorem undocumented_parse (text : String) :
    (parse text).undocumented = (({} : Reader).take (stream text)).finish := by
  have hlines := bare_foldl_line (text.toList.splitOn '\n') {}
  rw [parse, ofLines, undocumented_finish, hlines]
  rfl

end Schema
end ApiPages

import ApiPages.Proofs.Schema.Undocumented

/-!
# What a statement does to the reader

A statement closes a block, opens an item, declares something at top level, is a member of the open
item, or is passed over.  `Reader.statement_eq` says so once, `Reader.statement_elim` is the case
distinction, and the facts below are read off them.

* `Schema.HasItem` says that a schema has an item of a kind, and statements never take one away;
* `Reader.Founded` says that the open block has its item, `founded_statement` that this stays so;
* `hasItem_of_spot` says that the item a statement declares is there.
-/

namespace ApiPages

open Recognize (Block)

/-! ## Changes of the last element -/

@[simp]
theorem modifyLast_eq_nil {α : Type} {f : α → α} {l : List α} : modifyLast f l = [] ↔ l = [] := by
  rcases List.eq_nil_or_concat l with rfl | ⟨l, a, rfl⟩
  · simp [modifyLast]
  · simp [modifyLast_append_singleton]

/-- The last element of a joined list belongs to the second part. -/
theorem modifyLast_append {α : Type} (f : α → α) (front : List α) {l : List α} (h : l ≠ []) :
    modifyLast f (front ++ l) = front ++ modifyLast f l := by
  rcases List.eq_nil_or_concat l with rfl | ⟨l, a, rfl⟩
  · exact absurd rfl h
  · rw [List.concat_eq_append, ← List.append_assoc, modifyLast_append_singleton,
      modifyLast_append_singleton, List.append_assoc]

theorem modifyLast_modifyLast {α : Type} (f g : α → α) (l : List α) :
    modifyLast f (modifyLast g l) = modifyLast (fun a => f (g a)) l := by
  rcases List.eq_nil_or_concat l with rfl | ⟨l, a, rfl⟩
  · rfl
  · simp [modifyLast_append_singleton]

/-! ## Items in a schema -/

/-- The schema has an item that a block of this kind could belong to. -/
def Schema.HasItem (s : Schema) : Block → Prop
  | .service => s.services ≠ []
  | .message => s.messages ≠ []
  | .enum => s.enums ≠ []

/-- The schema with what a statement declares for the whole file. -/
def Schema.headed (schema : Schema) (s : List Char) : Schema :=
  match Recognize.dialect? s with
  | some dialect => { schema with dialect }
  | none =>
      match Recognize.package? s with
      | some package => { schema with package }
      | none =>
          match Recognize.import? s with
          | some path => { schema with imports := schema.imports ++ [path] }
          | none => schema

theorem Schema.headed_eq (schema : Schema) (s : List Char) : ∃ package dialect imports,
    schema.headed s = { schema with package, dialect, imports } := by
  unfold headed
  split
  · exact ⟨_, _, _, rfl⟩
  · split
    · exact ⟨_, _, _, rfl⟩
    · split
      · exact ⟨_, _, _, rfl⟩
      · exact ⟨_, _, _, rfl⟩

theorem Schema.hasItem_headed {schema : Schema} {kind : Block} (h : schema.HasItem kind)
    (s : List Char) :
    (schema.headed s).HasItem kind := by
  rcases schema.headed_eq s with ⟨package, dialect, imports, hheaded⟩
  rw [hheaded]
  cases kind with
  | _ =>
      exact h

/-- The kind of block that an item opens or is a member of. -/
def Spot.block : Spot → Block
  | .service | .rpc => .service
  | .message | .field => .message
  | .enum | .value => .enum

namespace Reader

/-! ## One statement -/

/-- The reader with the opening brace of a statement counted. -/
def deepened (r : Reader) (s : List Char) : Reader :=
  if s.getLast? == some '\x7b' then { r with depth := r.depth + 1 } else r

theorem deepened_eq (r : Reader) (s : List Char) : ∃ depth, r.deepened s = { r with depth } := by
  unfold deepened
  split
  · exact ⟨r.depth + 1, rfl⟩
  · exact ⟨r.depth, rfl⟩

/-- The header of an item, in a statement that opens a block. -/
def opening? (s : List Char) : Option (Block × String) :=
  if s.getLast? == some '\x7b' then Recognize.header? s else none

/-- All that a statement can do, by the place where it stands. -/
theorem statement_eq (r : Reader) (s : List Char) : r.statement s =
    if s == ['\x7d'] then (r.close, none)
    else
      match r.block with
      | some block => ((r.member block s).1.deepened s, (r.member block s).2)
      | none =>
          if r.depth == 0 then
            match opening? s with
            | some (block, name) => ((r.openBlock block name).1, some (r.openBlock block name).2)
            | none => ((r.declaration s).deepened s, none)
          else (r.deepened s, none) := by
  have hdeep : ∀ (r : Reader) (spot : Option Spot),
      (if s.getLast? == some '\x7b' then ({ r with depth := r.depth + 1 }, spot) else (r, spot)) =
        (r.deepened s, spot) := by
    intro r spot
    unfold deepened
    split
    · rfl
    · rfl
  unfold statement opening? inner
  cases hblock : r.block with
  | some block =>
      simp only [hdeep, Option.isNone_some, Bool.and_false, Bool.false_and, Bool.false_eq_true,
        if_false]
  | none =>
      cases hdepth : r.depth == 0 with
      | false =>
          simp only [hdeep, Bool.and_false, Bool.false_eq_true, if_false]
      | true =>
          simp only [hdeep, Option.isNone_none, Bool.and_true, if_true]
          cases s.getLast? == some '\x7b' with
          | false =>
              rfl
          | true =>
              rfl

theorem statement_elim {motive : Reader → Option Spot → Prop} (r : Reader) (s : List Char)
    (closed : motive r.close none)
    (opened : ∀ block name, motive (r.openBlock block name).1 (some (r.openBlock block name).2))
    (declared : r.block = none → motive ((r.declaration s).deepened s) none)
    (skipped : r.block = none → motive (r.deepened s) none)
    (member : ∀ block, r.block = some block →
      motive ((r.member block s).1.deepened s) (r.member block s).2) :
    motive (r.statement s).1 (r.statement s).2 := by
  rw [statement_eq]
  split
  · exact closed
  · cases hblock : r.block with
    | some block =>
        exact member block hblock
    | none =>
        dsimp only
        split
        · cases opening? s with
          | some header =>
              exact opened header.1 header.2
          | none =>
              exact declared hblock
        · exact skipped hblock

/-! ## What is recognised -/

/-- The statement declares an item where the reader is. -/
def declares (r : Reader) (s : List Char) : Bool :=
  (r.statement s).2.isSome

/-- The statement names the dialect or the package, or imports a file. -/
def isDeclaration (s : List Char) : Bool :=
  (Recognize.dialect? s).isSome || (Recognize.package? s).isSome || (Recognize.import? s).isSome

/-- The statement declares an item, or it is a declaration at top level. -/
def recognises (r : Reader) (s : List Char) : Bool :=
  r.declares s || (r.block.isNone && r.depth == 0 && isDeclaration s)

/-- A declaration changes what the schema declares for the whole file, and what is pending. -/
theorem declaration_eq (r : Reader) (s : List Char) : r.declaration s =
    { r with
      schema := r.schema.headed s
      pending := if isDeclaration s then [] else r.pending } := by
  unfold declaration Schema.headed isDeclaration
  cases Recognize.dialect? s with
  | some dialect =>
      rfl
  | none =>
      cases Recognize.package? s with
      | some package =>
          rfl
      | none =>
          cases Recognize.import? s with
          | some path =>
              rfl
          | none =>
              rfl

/-! ## Pending comments -/

theorem pending_deepened (r : Reader) (s : List Char) : (r.deepened s).pending = r.pending := by
  unfold deepened
  split
  · rfl
  · rfl

theorem pending_member (r : Reader) (block : Block) (s : List Char) :
    (r.member block s).1.pending = if (r.member block s).2.isSome then [] else r.pending := by
  unfold member
  cases block with
  | _ =>
      dsimp only
      split
      · rfl
      · rfl

/-- What waits is taken by everything that is recognised, and by nothing else. -/
theorem pending_statement (r : Reader) (s : List Char) :
    (r.statement s).1.pending = if r.recognises s then [] else r.pending := by
  unfold recognises declares
  rw [statement_eq]
  split
  · next hclose =>
      have hbrace : isDeclaration s = false := by
        rw [eq_of_beq hclose]
        decide
      rw [hbrace, Bool.and_false]
      rfl
  · cases hblock : r.block with
    | some block =>
        dsimp only
        rw [pending_deepened, pending_member]
        simp
    | none =>
        dsimp only
        cases htop : r.depth == 0 with
        | true =>
            cases opening? s with
            | some header =>
                rfl
            | none =>
                show ((r.declaration s).deepened s).pending = _
                rw [pending_deepened, declaration_eq]
                simp
        | false =>
            exact pending_deepened r s

/-! ## Items stay -/

theorem hasItem_member {r : Reader} {block kind : Block} {s : List Char}
    (h : r.schema.HasItem kind) :
    (r.member block s).1.schema.HasItem kind := by
  unfold member
  cases block with
  | _ =>
      dsimp only
      split
      · cases kind with
        | _ =>
            simpa [Schema.HasItem] using h
      · exact h

/-- No statement takes an item away. -/
theorem hasItem_statement {r : Reader} {kind : Block} (s : List Char) (h : r.schema.HasItem kind) :
    (r.statement s).1.schema.HasItem kind := by
  refine statement_elim (motive := fun r' _ => r'.schema.HasItem kind) r s h ?_ ?_ ?_ ?_
  · intro block name
    unfold openBlock
    cases block with
    | _ =>
        cases kind with
        | _ =>
            simp_all [Schema.HasItem]
  · intro _
    rcases deepened_eq (r.declaration s) s with ⟨depth, hdeep⟩
    rw [hdeep, declaration_eq]
    exact Schema.hasItem_headed h s
  · intro _
    rcases deepened_eq r s with ⟨depth, hdeep⟩
    rw [hdeep]
    exact h
  · intro block _
    rcases deepened_eq (r.member block s).1 s with ⟨depth, hdeep⟩
    rw [hdeep]
    exact hasItem_member h

/-! ## Open items -/

/-- An open item block has its item in the schema. -/
def Founded (r : Reader) : Prop :=
  ∀ block, r.block = some block → r.schema.HasItem block

theorem founded_of_block_eq_none {r : Reader} (h : r.block = none) : r.Founded := by
  intro block hblock
  rw [h] at hblock
  cases hblock

theorem hasItem_openBlock (r : Reader) (block : Block) (name : String) :
    (r.openBlock block name).1.schema.HasItem block := by
  cases block with
  | _ =>
      simp [openBlock, Schema.HasItem]

theorem block_member (r : Reader) (block : Block) (s : List Char) :
    (r.member block s).1.block = r.block := by
  unfold member
  cases block with
  | _ =>
      dsimp only
      split
      · rfl
      · rfl

/-- A statement leaves every open item founded. -/
theorem founded_statement {r : Reader} (s : List Char) (h : r.Founded) :
    (r.statement s).1.Founded := by
  refine statement_elim (motive := fun r' _ => r'.Founded) r s ?_ ?_ ?_ ?_ ?_
  · intro block hblock
    simp only [close] at hblock ⊢
    split at hblock
    · cases hblock
    · exact h block hblock
  · intro block name block' hblock'
    have hsame : block' = block := by
      simpa [openBlock] using hblock'.symm
    rw [hsame]
    exact hasItem_openBlock r block name
  · intro hblock
    rcases deepened_eq (r.declaration s) s with ⟨depth, hdeep⟩
    rw [hdeep, declaration_eq]
    exact founded_of_block_eq_none hblock
  · intro hblock
    rcases deepened_eq r s with ⟨depth, hdeep⟩
    rw [hdeep]
    exact founded_of_block_eq_none hblock
  · intro block hblock block' hblock'
    rcases deepened_eq (r.member block s).1 s with ⟨depth, hdeep⟩
    rw [hdeep] at hblock' ⊢
    exact hasItem_member (h block' ((block_member r block s).symm.trans hblock'))

theorem block_spot_of_member {r : Reader} {block : Block} {s : List Char} {spot : Spot}
    (h : (r.member block s).2 = some spot) : spot.block = block := by
  unfold member at h
  cases block with
  | _ =>
      dsimp only at h
      split at h
      · cases h
        rfl
      · cases h

/-- The item that a statement declares is in the schema. -/
theorem hasItem_of_spot {r : Reader} {s : List Char} {spot : Spot} (h : r.Founded)
    (hspot : (r.statement s).2 = some spot) : (r.statement s).1.schema.HasItem spot.block := by
  revert hspot
  refine statement_elim (motive := fun r' found => found = some spot → r'.schema.HasItem spot.block)
    r s ?_ ?_ ?_ ?_ ?_
  · intro hspot
    cases hspot
  · intro block name hspot
    have hblock : spot.block = block := by
      cases block with
      | _ =>
          cases hspot
          rfl
    rw [hblock]
    exact hasItem_openBlock r block name
  · intro _ hspot
    cases hspot
  · intro _ hspot
    cases hspot
  · intro block hblock hspot
    rcases deepened_eq (r.member block s).1 s with ⟨depth, hdeep⟩
    rw [hdeep, block_spot_of_member hspot]
    exact hasItem_member (h block hblock)

/-! ## Rows of statements -/

/-- One statement of a row; the item found so far is kept until another one is found. -/
def found (state : Reader × Option Spot) (s : List Char) : Reader × Option Spot :=
  ((state.1.statement s).1, (state.1.statement s).2.or state.2)

theorem statements_eq_foldl (r : Reader) (stmts : List (List Char)) :
    r.statements stmts = stmts.foldl found (r, none) :=
  rfl

theorem foldl_found (r : Reader) (spot : Option Spot) (stmts : List (List Char)) :
    stmts.foldl found (r, spot) = ((r.statements stmts).1, (r.statements stmts).2.or spot) := by
  rw [statements_eq_foldl]
  induction stmts generalizing r spot with
  | nil =>
      rfl
  | cons s stmts ih =>
      rw [List.foldl_cons, List.foldl_cons, found, found, ih, ih _ ((r.statement s).2.or none)]
      simp [Option.or_assoc]

theorem statements_cons (r : Reader) (s : List Char) (stmts : List (List Char)) :
    r.statements (s :: stmts) = (((r.statement s).1.statements stmts).1,
      ((r.statement s).1.statements stmts).2.or (r.statement s).2) := by
  rw [statements_eq_foldl, List.foldl_cons, found, foldl_found, Option.or_none]

theorem founded_take {r : Reader} (stmts : List (List Char)) (h : r.Founded) :
    (r.take stmts).Founded := by
  induction stmts generalizing r with
  | nil =>
      exact h
  | cons s stmts ih =>
      exact ih (founded_statement s h)

theorem hasItem_take {r : Reader} {kind : Block} (stmts : List (List Char))
    (h : r.schema.HasItem kind) :
    (r.take stmts).schema.HasItem kind := by
  induction stmts generalizing r with
  | nil =>
      exact h
  | cons s stmts ih =>
      exact ih (hasItem_statement s h)

theorem pending_take {r : Reader} (h : r.pending = []) (stmts : List (List Char)) :
    (r.take stmts).pending = [] := by
  induction stmts generalizing r with
  | nil =>
      exact h
  | cons s stmts ih =>
      refine ih ?_
      rw [pending_statement, h, ite_self]

/-- The last item that a row of statements declares is in the schema. -/
theorem hasItem_of_spots {r : Reader} {stmts : List (List Char)} {spot : Spot} (h : r.Founded)
    (hspot : (r.statements stmts).2 = some spot) :
    (r.statements stmts).1.schema.HasItem spot.block := by
  induction stmts generalizing r with
  | nil =>
      cases hspot
  | cons s stmts ih =>
      rw [statements_cons] at hspot ⊢
      rcases Option.or_eq_some_iff.1 hspot with hlater | ⟨-, hfound⟩
      · exact ih (founded_statement s h) hlater
      · rw [statements_fst]
        exact hasItem_take stmts (hasItem_of_spot h hfound)

/-! ## Lines -/

/-- What a line inside a block comment says: the text up to the end of the comment, without a star
in front of it.  A line without text says nothing. -/
def commentText (line : List Char) : List String :=
  let body := match Text.cut? ['*', '/'] line with
    | some (body, _) => body
    | none => line
  let body := match Text.trim body with
    | '*' :: rest => rest
    | body => body
  let body := Text.trim body
  if body.isEmpty then [] else [String.ofList body]

theorem blockComment_eq (r : Reader) (line : List Char) : r.blockComment line =
    { r with
      inComment := r.inComment && !Text.occurs ['*', '/'] line
      pending := r.pending ++ commentText line } := by
  -- both sides ask whether any text is left of the line
  have hadd : ∀ (r : Reader) (body : List Char),
      (if body.isEmpty then r else { r with pending := r.pending ++ [String.ofList body] }) =
        { r with pending := r.pending ++ if body.isEmpty then [] else [String.ofList body] } := by
    intro r body
    split
    · simp
    · rfl
  unfold blockComment commentText
  cases hcut : Text.cut? ['*', '/'] line with
  | none =>
      have hopen : (r.inComment && !Text.occurs ['*', '/'] line) = r.inComment := by
        simp [Text.occurs, hcut]
      rw [hopen]
      exact hadd r _
  | some parts =>
      have hclosed : (r.inComment && !Text.occurs ['*', '/'] line) = false := by
        simp [Text.occurs, hcut]
      rw [hclosed]
      exact hadd { r with inComment := false } _

theorem hasItem_annotate {schema : Schema} {kind : Block} (h : schema.HasItem kind) (spot : Spot)
    (comment : String) : (schema.annotate spot comment).HasItem kind := by
  cases spot with
  | _ =>
      cases kind with
      | _ =>
          simpa [Schema.annotate, Schema.HasItem] using h

theorem founded_codeLine {r : Reader} (h : r.Founded) (line : List Char) :
    (r.codeLine line).Founded := by
  have htake := founded_take (Statement.split (Statement.splitComment line).1) h
  rw [← statements_fst] at htake
  unfold codeLine
  dsimp only
  split
  · split
    · exact htake
    · intro block hblock
      exact hasItem_annotate (htake block hblock) _ _
  · exact htake

theorem founded_line {r : Reader} (h : r.Founded) (raw : List Char) : (r.line raw).Founded := by
  unfold line
  dsimp only
  split
  · rw [blockComment_eq]
    exact h
  · split
    · exact h
    · exact h
    · rw [blockComment_eq]
      exact h
    · exact founded_codeLine h (Text.trim raw)

theorem founded_foldl_line {r : Reader} (h : r.Founded) (lines : List (List Char)) :
    (lines.foldl line r).Founded := by
  induction lines generalizing r with
  | nil =>
      exact h
  | cons raw lines ih =>
      exact ih (founded_line h raw)

end Reader
end ApiPages

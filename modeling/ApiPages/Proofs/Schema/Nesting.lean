import ApiPages.Proofs.Schema.Undocumented

/-!
# Blocks and what they declare

The reader goes through a text once and keeps a depth count.  This module reads the same statements
recursively, block by block, and shows that both readings agree.

* `Nesting.body?` cuts a row of statements at the closing brace that matches, by recursive descent;
* `Nesting.item` is the item of a block: all members found anywhere in its body;
* `Nesting.read` reads a row of statements: items, declarations, and blocks that are neither;
* `Nesting.frame` is the reader inside a block.  `Balanced.take_frame` carries it over a balanced
  body, `take_frame_of_body?_eq_none` to the end of a text that leaves the block open;
* `Nesting.undocumented_parse_eq_read` is the agreement of the two readings for every text.
-/

namespace ApiPages

open Recognize (Block)

/-! ## Joining schemas -/

namespace Schema

/-- One schema after another: the lists are joined, and a name given later counts. -/
def followedBy (a b : Schema) : Schema :=
  { package := if b.package = "" then a.package else b.package
    dialect := if b.dialect = "" then a.dialect else b.dialect
    imports := a.imports ++ b.imports
    services := a.services ++ b.services
    messages := a.messages ++ b.messages
    enums := a.enums ++ b.enums }

instance : Append Schema where
  append := followedBy

theorem append_def (a b : Schema) : a ++ b = a.followedBy b :=
  rfl

@[simp]
theorem append_empty (a : Schema) : a ++ ({} : Schema) = a := by
  simp [append_def, followedBy]

@[simp]
theorem empty_append (a : Schema) : ({} : Schema) ++ a = a := by
  have hname : ∀ name : String, (if name = "" then "" else name) = name := by
    intro name
    split
    · next h =>
        exact h.symm
    · rfl
  simp [append_def, followedBy, hname]

theorem append_assoc (a b c : Schema) : a ++ b ++ c = a ++ (b ++ c) := by
  have hname : ∀ x y z : String,
      (if z = "" then (if y = "" then x else y) else z) =
        if (if z = "" then y else z) = "" then x else if z = "" then y else z := by
    intro x y z
    by_cases hz : z = ""
    · simp [hz]
    · simp [hz]
  simp [append_def, followedBy, hname]

end Schema

namespace Nesting

/-! ## Braces -/

def isClosing (s : List Char) : Bool :=
  s == ['\x7d']

def isOpening (s : List Char) : Bool :=
  s.getLast? == some '\x7b'

/-- The statements up to the closing brace that matches, and those after it.  A block inside is read
to its own closing brace first. -/
def body? (stmts : List (List Char)) :
    Option { parts : List (List Char) × List (List Char) // parts.2.length < stmts.length } :=
  match stmts with
  | [] => none
  | s :: rest =>
      if isClosing s then some ⟨([], rest), Nat.lt_succ_self _⟩
      else if isOpening s then
        match body? rest with
        | none => none
        | some ⟨(inside, after), hinside⟩ =>
            match body? after with
            | none => none
            | some ⟨(more, last), hmore⟩ =>
                some ⟨(s :: inside ++ ['\x7d'] :: more, last),
                  Nat.lt_succ_of_lt (Nat.lt_trans hmore hinside)⟩
      else
        match body? rest with
        | none => none
        | some ⟨(more, last), hmore⟩ => some ⟨(s :: more, last), Nat.lt_succ_of_lt hmore⟩
termination_by stmts.length
decreasing_by
  · exact Nat.lt_succ_self _
  · exact Nat.lt_succ_of_lt hinside
  · exact Nat.lt_succ_self _

/-- Rows of statements in which every block is closed and no closing brace is left over. -/
inductive Balanced : List (List Char) → Prop where
  | nil : Balanced []
  | plain {s : List Char} {rest : List (List Char)} :
      isClosing s = false → isOpening s = false → Balanced rest → Balanced (s :: rest)
  | block {s : List Char} {inside rest : List (List Char)} :
      isClosing s = false → isOpening s = true → Balanced inside → Balanced rest →
        Balanced (s :: inside ++ ['\x7d'] :: rest)

theorem balanced_of_body?_eq_some {stmts : List (List Char)} :
    ∀ {parts}, body? stmts = some parts →
      Balanced parts.1.1 ∧ stmts = parts.1.1 ++ ['\x7d'] :: parts.1.2 := by
  fun_induction body? stmts with
  | case1 =>
      intro parts h
      cases h
  | case2 s rest hclose =>
      intro parts h
      cases h
      -- the block ends here with nothing in it
      exact ⟨Balanced.nil, congrArg (· :: rest) (eq_of_beq hclose)⟩
  | case3 s rest hclose hopen hinside ih =>
      intro parts h
      cases h
  | case4 s rest hclose hopen inside after hlt hinside hmore ih ih' =>
      intro parts h
      cases h
  | case5 s rest hclose hopen inside after hlt hinside more last hlt' hmore ih ih' =>
      intro parts h
      cases h
      -- a block inside and then the rest of the body
      rcases ih hinside with ⟨hb, hsplit⟩
      rcases ih' hmore with ⟨hb', hsplit'⟩
      refine ⟨Balanced.block (by simpa using hclose) hopen hb hb', ?_⟩
      simp [hsplit, hsplit']
  | case6 s rest hclose hopen hmore ih =>
      intro parts h
      cases h
  | case7 s rest hclose hopen more last hlt hmore ih =>
      intro parts h
      cases h
      rcases ih hmore with ⟨hb, hsplit⟩
      refine ⟨Balanced.plain (by simpa using hclose) (by simpa using hopen) hb, ?_⟩
      simp [hsplit]

/-! ## The recursive reading -/

/-- The item of a block, with all members found anywhere in its body. -/
def item (block : Block) (name : String) (body : List (List Char)) : Schema :=
  match block with
  | .service => { services := [{ name, rpcs := body.filterMap Recognize.rpc? }] }
  | .message => { messages := [{ name, fields := body.filterMap Recognize.field? }] }
  | .enum => { enums := [{ name, values := body.filterMap Recognize.enumValue? }] }

/-- What a statement declares at top level. -/
def declared (s : List Char) : Schema :=
  match Recognize.dialect? s, Recognize.package? s, Recognize.import? s with
  | some dialect, _, _ => { dialect }
  | none, some package, _ => { package }
  | none, none, some path => { imports := [path] }
  | none, none, none => {}

/-- The schema of a row of statements.  A surplus closing brace counts for nothing, and so do the
body of a block that is no item and an item that is left open. -/
def read (stmts : List (List Char)) : Schema :=
  match stmts with
  | [] => {}
  | s :: rest =>
      if isClosing s then read rest
      else if isOpening s then
        match Recognize.header? s, body? rest with
        | some (block, name), some ⟨(body, after), _⟩ => item block name body ++ read after
        | some _, none => {}
        | none, some ⟨(_, after), _⟩ => declared s ++ read after
        | none, none => declared s
      else declared s ++ read rest
termination_by stmts.length
decreasing_by
  · exact Nat.lt_succ_self _
  · exact Nat.lt_succ_of_lt ‹_›
  · exact Nat.lt_succ_of_lt ‹_›
  · exact Nat.lt_succ_self _

/-! ## The reader at top level and inside a block -/

/-- The reader at top level. -/
def top (schema : Schema) : Reader :=
  { schema }

/-- What a block has contributed after some statements of its body; a block without an owner is no
item. -/
def held (owner : Option (Block × String)) (seen : List (List Char)) : Schema :=
  match owner with
  | some (block, name) => item block name seen
  | none => {}

/-- The reader inside a block, `depth` braces below top level, after some statements of its body. -/
def frame (base : Schema) (owner : Option (Block × String)) (seen : List (List Char))
    (depth : Nat) :
    Reader :=
  { schema := base ++ held owner seen, block := owner.map Prod.fst, depth }

theorem docs_eq_nil_of_rpc? {s : List Char} {rpc : Rpc} (h : Recognize.rpc? s = some rpc) :
    rpc.docs = [] := by
  simp only [Recognize.rpc?, Option.bind_eq_bind, Option.bind_eq_some_iff] at h
  rcases h with ⟨_, _, _, _, _, _, _, _, _, _, _, _, h⟩
  cases h
  rfl

theorem docs_eq_nil_of_field? {s : List Char} {field : MessageField}
    (h : Recognize.field? s = some field) : field.docs = [] := by
  have hafter : ∀ {type cs : List Char} {f : MessageField},
      Recognize.fieldAfter? type cs = some f → f.docs = [] := by
    intro type cs f hf
    simp only [Recognize.fieldAfter?, Option.bind_eq_bind, Option.bind_eq_some_iff] at hf
    rcases hf with ⟨_, _, _, _, _, _, _, _, hf⟩
    split at hf
    · cases hf
      rfl
    · cases hf
  have hunlabelled : ∀ {cs : List Char} {f : MessageField},
      Recognize.unlabelled? cs = some f → f.docs = [] := by
    intro cs f hf
    rcases Option.or_eq_some_iff.1 hf with hf | ⟨-, hf⟩
    · rcases Option.bind_eq_some_iff.1 hf with ⟨_, _, hf⟩
      exact hafter hf
    · rcases Option.bind_eq_some_iff.1 hf with ⟨_, _, hf⟩
      exact hafter hf
  -- the labels are put on afterwards and do not touch the comments
  rcases List.exists_of_findSome?_eq_some h with ⟨k, _, hk⟩
  rcases Option.map_eq_some_iff.1 hk with ⟨f, hf, rfl⟩
  show f.docs = []
  exact hunlabelled hf

theorem docs_eq_nil_of_enumValue? {s : List Char} {value : EnumValue}
    (h : Recognize.enumValue? s = some value) : value.docs = [] := by
  simp only [Recognize.enumValue?, Option.bind_eq_bind, Option.bind_eq_some_iff] at h
  rcases h with ⟨_, _, _, _, _, _, h⟩
  split at h
  · cases h
    rfl
  · cases h

/-- A statement of the body adds what it declares as a member. -/
theorem member_frame (base : Schema) (block : Block) (name : String) (seen : List (List Char))
    (depth : Nat) (s : List Char) :
    ((frame base (some (block, name)) seen depth).member block s).1 =
      frame base (some (block, name)) (seen ++ [s]) depth := by
  cases block with
  | service =>
      cases hrpc : Recognize.rpc? s with
      | none =>
          simp [Reader.member, frame, held, item, hrpc, List.filterMap_append]
      | some rpc =>
          rcases rpc with ⟨name, request, response, client, server, docs⟩
          obtain rfl : docs = [] := docs_eq_nil_of_rpc? hrpc
          simp [Reader.member, frame, held, item, hrpc, List.filterMap_append, Schema.append_def,
            Schema.followedBy, modifyLast_append_singleton]
  | message =>
      cases hfield : Recognize.field? s with
      | none =>
          simp [Reader.member, frame, held, item, hfield, List.filterMap_append]
      | some field =>
          rcases field with ⟨type, name, number, isRepeated, isOptional, docs⟩
          obtain rfl : docs = [] := docs_eq_nil_of_field? hfield
          simp [Reader.member, frame, held, item, hfield, List.filterMap_append, Schema.append_def,
            Schema.followedBy, modifyLast_append_singleton]
  | enum =>
      cases hvalue : Recognize.enumValue? s with
      | none =>
          simp [Reader.member, frame, held, item, hvalue, List.filterMap_append]
      | some value =>
          rcases value with ⟨name, number, docs⟩
          obtain rfl : docs = [] := docs_eq_nil_of_enumValue? hvalue
          simp [Reader.member, frame, held, item, hvalue, List.filterMap_append, Schema.append_def,
            Schema.followedBy, modifyLast_append_singleton]

theorem fst_statement (r : Reader) (s : List Char) :
    (r.statement s).1 =
      if isClosing s then r.close
      else if isOpening s && r.block.isNone && r.depth == 0 then
        match Recognize.header? s with
        | some (block, name) => (r.openBlock block name).1
        | none => (r.inner s).1
      else (r.inner s).1 := by
  unfold Reader.statement
  split
  · next h =>
      rw [isClosing, if_pos h]
  · next h =>
      rw [isClosing, if_neg h]
      split
      · next h =>
          rw [isOpening, if_pos h]
          cases Recognize.header? s with
          | _ =>
              rfl
      · next h =>
          rw [isOpening, if_neg h]

theorem fst_inner (r : Reader) (s : List Char) :
    (r.inner s).1 =
      let after := match r.block with
        | none => if r.depth == 0 then r.declaration s else r
        | some block => (r.member block s).1
      if isOpening s then { after with depth := after.depth + 1 } else after := by
  unfold Reader.inner
  cases r.block with
  | _ =>
      dsimp only
      split
      · next h =>
          rw [isOpening, if_pos h]
      · next h =>
          rw [isOpening, if_neg h]

/-- A statement inside a block other than a closing brace. -/
theorem statement_frame (base : Schema) (owner : Option (Block × String)) (seen : List (List Char))
    (depth : Nat) {s : List Char} (hclose : isClosing s = false) :
    ((frame base owner seen (depth + 1)).statement s).1 =
      frame base owner (seen ++ [s]) (if isOpening s then depth + 2 else depth + 1) := by
  -- in an item the statement is read as a member; in another block it counts for nothing
  have hafter : (match (frame base owner seen (depth + 1)).block with
      | none => if (depth + 1 == 0) = true then (frame base owner seen (depth + 1)).declaration s
          else frame base owner seen (depth + 1)
      | some block => ((frame base owner seen (depth + 1)).member block s).1) =
        frame base owner (seen ++ [s]) (depth + 1) := by
    cases owner with
    | none =>
        rfl
    | some owner =>
        exact member_frame base owner.1 owner.2 seen (depth + 1) s
  have hdepth : (frame base owner seen (depth + 1)).depth = depth + 1 := rfl
  rw [fst_statement, hclose, hdepth, fst_inner, hdepth]
  simp only [hafter]
  cases isOpening s with
  | true =>
      simp [frame]
  | false =>
      simp

/-- A closing brace that closes a block inside. -/
theorem close_frame (base : Schema) (owner : Option (Block × String)) (seen : List (List Char))
    (depth : Nat) :
    ((frame base owner seen (depth + 2)).statement ['\x7d']).1 =
      frame base owner (seen ++ [['\x7d']]) (depth + 1) := by
  have hheld : held owner (seen ++ [['\x7d']]) = held owner seen := by
    cases owner with
    | none =>
        rfl
    | some owner =>
        -- the brace itself is no member
        have hrpc : Recognize.rpc? ['\x7d'] = none := by decide
        have hfield : Recognize.field? ['\x7d'] = none := by decide
        have hvalue : Recognize.enumValue? ['\x7d'] = none := by decide
        rcases owner with ⟨block, name⟩
        cases block with
        | _ =>
            simp [held, item, List.filterMap_append, hrpc, hfield, hvalue]
  simp [frame, Reader.statement, Reader.close, hheld]

/-- The closing brace that ends the block. -/
theorem close_frame_one (base : Schema) (owner : Option (Block × String))
    (seen : List (List Char)) :
    ((frame base owner seen 1).statement ['\x7d']).1 = top (base ++ held owner seen) := by
  simp [frame, top, Reader.statement, Reader.close]

theorem finish_frame (base : Schema) (owner : Option (Block × String)) (seen : List (List Char))
    (depth : Nat) : (frame base owner seen depth).finish = base := by
  cases owner with
  | none =>
      simp [frame, held, Reader.finish]
  | some owner =>
      rcases owner with ⟨block, name⟩
      cases block with
      | _ =>
          simp [frame, held, item, Reader.finish, Schema.append_def, Schema.followedBy]

/-! ## Statements at top level -/

theorem ne_nil_of_run?_eq_some {p : Char → Bool} {cs run rest : List Char}
    (h : Recognize.run? p cs = some (run, rest)) : run ≠ [] := by
  simp only [Recognize.run?] at h
  split at h
  · cases h
  · next hne =>
      cases h
      simpa using hne

theorem dialect?_ne_empty {s : List Char} : Recognize.dialect? s ≠ some "" := by
  intro h
  simp only [Recognize.dialect?, Recognize.quoted?, Option.bind_eq_bind,
    Option.bind_eq_some_iff] at h
  rcases h with ⟨_, _, _, _, _, ⟨_, _, _, hrun, _, _, hquoted⟩, htext⟩
  cases hquoted
  simp at htext
  exact ne_nil_of_run?_eq_some hrun htext

theorem package?_ne_empty {s : List Char} : Recognize.package? s ≠ some "" := by
  intro h
  simp only [Recognize.package?, Option.bind_eq_bind, Option.bind_eq_some_iff] at h
  rcases h with ⟨_, _, _, _, run, hrun, htext⟩
  simp at htext
  exact ne_nil_of_run?_eq_some hrun htext

theorem declaration_top (base : Schema) (s : List Char) :
    (top base).declaration s = top (base ++ declared s) := by
  unfold Reader.declaration declared
  cases hdialect : Recognize.dialect? s with
  | some dialect =>
      have hne : dialect ≠ "" := fun h => dialect?_ne_empty (h ▸ hdialect)
      simp [top, Schema.append_def, Schema.followedBy, hne]
  | none =>
      cases hpackage : Recognize.package? s with
      | some package =>
          have hne : package ≠ "" := fun h => package?_ne_empty (h ▸ hpackage)
          simp [top, Schema.append_def, Schema.followedBy, hne]
      | none =>
          cases himport : Recognize.import? s with
          | some path =>
              simp [top, Schema.append_def, Schema.followedBy]
          | none =>
              simp [top]

theorem statement_top_closing (base : Schema) : ((top base).statement ['\x7d']).1 = top base :=
  rfl

theorem statement_top_plain (base : Schema) {s : List Char} (hclose : isClosing s = false)
    (hopen : isOpening s = false) :
    ((top base).statement s).1 = top (base ++ declared s) := by
  rw [fst_statement, hclose, hopen, fst_inner, hopen, ← declaration_top]
  rfl

theorem statement_top_header (base : Schema) {s : List Char} {block : Block} {name : String}
    (hclose : isClosing s = false) (hopen : isOpening s = true)
    (hheader : Recognize.header? s = some (block, name)) :
    ((top base).statement s).1 = frame base (some (block, name)) [] 1 := by
  rw [fst_statement, hclose, hopen, hheader]
  cases block with
  | _ =>
      simp [Reader.openBlock, top, frame, held, item, Schema.append_def, Schema.followedBy]

theorem statement_top_other (base : Schema) {s : List Char}
    (hclose : isClosing s = false) (hopen : isOpening s = true)
    (hheader : Recognize.header? s = none) :
    ((top base).statement s).1 = frame (base ++ declared s) none [] 1 := by
  rw [fst_statement, hclose, hopen, hheader, fst_inner, hopen]
  show { (top base).declaration s with depth := ((top base).declaration s).depth + 1 } = _
  rw [declaration_top]
  simp [top, frame, held]

/-! ## Bodies -/

/-- A balanced body leaves the depth as it is. -/
theorem Balanced.take_frame {body : List (List Char)} (h : Balanced body) (base : Schema)
    (owner : Option (Block × String)) (seen : List (List Char)) (depth : Nat) :
    (frame base owner seen (depth + 1)).take body =
      frame base owner (seen ++ body) (depth + 1) := by
  induction h generalizing seen depth with
  | nil =>
      rw [List.append_nil]
      rfl
  | plain hclose hopen _ ih =>
      rw [Reader.take_cons, statement_frame _ _ _ _ hclose, hopen]
      simp [ih]
  | block hclose hopen _ _ ihinside ihrest =>
      -- the inner block is read one level deeper, and its brace comes back to this level
      rw [List.cons_append, Reader.take_cons, statement_frame _ _ _ _ hclose, hopen, if_pos rfl,
        Reader.take_append, ihinside, Reader.take_cons, close_frame, ihrest]
      simp

/-- Without the matching brace the reader never leaves the block. -/
theorem take_frame_of_body?_eq_none {stmts : List (List Char)} (h : body? stmts = none)
    (base : Schema) (owner : Option (Block × String)) (seen : List (List Char)) (depth : Nat) :
    ∃ seen' depth', (frame base owner seen (depth + 1)).take stmts =
      frame base owner seen' depth' := by
  fun_induction body? stmts generalizing seen depth with
  | case1 =>
      exact ⟨seen, depth + 1, rfl⟩
  | case2 s rest hclose =>
      cases h
  | case3 s rest hclose hopen hinside ih =>
      -- the text ends in a block inside
      rw [Reader.take_cons, statement_frame _ _ _ _ (by simpa using hclose), hopen]
      exact ih hinside _ _
  | case4 s rest hclose hopen inside after hlt hinside hmore ih ih' =>
      -- the block inside is closed, so the text ends in what follows it
      rcases balanced_of_body?_eq_some hinside with ⟨hb, hsplit⟩
      dsimp only at hb hsplit
      rw [Reader.take_cons, statement_frame _ _ _ _ (by simpa using hclose), hopen,
        if_pos rfl, hsplit, Reader.take_append, hb.take_frame, Reader.take_cons, close_frame]
      exact ih' hmore _ _
  | case5 s rest hclose hopen inside after hlt hinside more last hlt' hmore ih ih' =>
      cases h
  | case6 s rest hclose hopen hmore ih =>
      rw [Reader.take_cons, statement_frame _ _ _ _ (by simpa using hclose), if_neg hopen]
      exact ih hmore _ _
  | case7 s rest hclose hopen more last hlt hmore ih =>
      cases h

/-- A block that is closed contributes what it holds. -/
theorem take_frame_of_body?_eq_some {stmts : List (List Char)} {parts}
    (h : body? stmts = some parts) (base : Schema) (owner : Option (Block × String)) :
    (frame base owner [] 1).take stmts = (top (base ++ held owner parts.1.1)).take parts.1.2 := by
  rcases balanced_of_body?_eq_some h with ⟨hb, hsplit⟩
  calc
    (frame base owner [] 1).take stmts
        = (frame base owner [] 1).take (parts.1.1 ++ ['\x7d'] :: parts.1.2) :=
          congrArg _ hsplit
    _ = (frame base owner parts.1.1 1).take (['\x7d'] :: parts.1.2) := by
          rw [Reader.take_append, hb.take_frame, List.nil_append]
    _ = (top (base ++ held owner parts.1.1)).take parts.1.2 := by
          rw [Reader.take_cons, close_frame_one]

/-! ## Both readings agree -/

theorem finish_take_top (stmts : List (List Char)) (base : Schema) :
    ((top base).take stmts).finish = base ++ read stmts := by
  fun_induction read stmts generalizing base with
  | case1 =>
      simp [Reader.take, top, Reader.finish]
  | case2 s rest hclose ih =>
      rw [Reader.take_cons, eq_of_beq hclose, statement_top_closing, ih]
  | case3 s rest hclose hopen block name body after hlt hbody hheader ih =>
      -- an item with its body, then the rest
      calc
        ((top base).take (s :: rest)).finish
            = ((frame base (some (block, name)) [] 1).take rest).finish := by
              rw [Reader.take_cons, statement_top_header base (by simpa using hclose) hopen hheader]
        _ = ((top (base ++ item block name body)).take after).finish := by
              rw [take_frame_of_body?_eq_some hbody]
              rfl
        _ = base ++ item block name body ++ read after := ih _
        _ = base ++ (item block name body ++ read after) := Schema.append_assoc ..
  | case4 s rest hclose hopen owner hbody hheader =>
      -- an item that is never closed
      rcases take_frame_of_body?_eq_none hbody base (some owner) [] 0 with ⟨seen, depth, htake⟩
      rw [Reader.take_cons, statement_top_header base (by simpa using hclose) hopen hheader, htake,
        finish_frame, Schema.append_empty]
  | case5 s rest hclose hopen body after hlt hbody hheader ih =>
      -- a block that is no item, of which only the header counts
      calc
        ((top base).take (s :: rest)).finish
            = ((frame (base ++ declared s) none [] 1).take rest).finish := by
              rw [Reader.take_cons, statement_top_other base (by simpa using hclose) hopen hheader]
        _ = ((top (base ++ declared s)).take after).finish := by
              rw [take_frame_of_body?_eq_some hbody, held, Schema.append_empty]
        _ = base ++ declared s ++ read after := ih _
        _ = base ++ (declared s ++ read after) := Schema.append_assoc ..
  | case6 s rest hclose hopen hbody hheader =>
      -- a block that is no item and is never closed
      rcases take_frame_of_body?_eq_none hbody (base ++ declared s) none [] 0 with
        ⟨seen, depth, htake⟩
      rw [Reader.take_cons, statement_top_other base (by simpa using hclose) hopen hheader, htake,
        finish_frame]
  | case7 s rest hclose hopen ih =>
      rw [Reader.take_cons,
        statement_top_plain base (by simpa using hclose) (by simpa using hopen), ih,
        Schema.append_assoc]

/-- Up to documentation, a text is read as its statements are read block by block. -/
theorem undocumented_parse_eq_read (text : String) :
    (Schema.parse text).undocumented = read (Schema.stream text) := by
  rw [Schema.undocumented_parse]
  show ((top {}).take (Schema.stream text)).finish = _
  rw [finish_take_top, Schema.empty_append]

end Nesting
end ApiPages

import ApiPages.Proofs.Schema.Steps
import Mathlib.Data.List.Induction

/-!
# Which comment documents which item

Comment lines wait for the next item, and the comment behind a line belongs to the last item on it.
Here each statement is given its comment lines beforehand, and the reading of such statements is
compared with the reading of the text.

* `Schema.lineKinds` sorts lines into blank lines, comment lines and code;
* `Schema.adjacent` gives an item the comment lines right above its line, `Schema.waiting` all that
  were not cut off by a blank line or taken by something recognised;
* `Schema.answered` are the lines on which no comment stands over code that does not take it;
* `Schema.parse_documented` says that the reader gives the comments that wait, and on such lines the
  comments right above.
-/

namespace ApiPages

open Recognize (Block)

/-! ## Statements with their documentation -/

/-- Adds comment lines to the last item of a kind. -/
def Schema.annotateAll (s : Schema) (spot : Option Spot) (docs : List String) : Schema :=
  match spot with
  | some spot => docs.foldl (fun s line => s.annotate spot line) s
  | none => s

namespace Reader

/-- The reader with comment lines added to the last item of a kind. -/
def noted (r : Reader) (spot : Option Spot) (docs : List String) : Reader :=
  { r with schema := r.schema.annotateAll spot docs }

/-- Takes a statement, and gives the item it declares the comment lines that come with it. -/
def documented (r : Reader) (s : List Char × List String) : Reader :=
  let (next, spot) := r.statement s.1
  next.noted spot s.2

/-- Takes a row of statements that come with their comment lines. -/
def takeDocumented (r : Reader) (stmts : List (List Char × List String)) : Reader :=
  stmts.foldl documented r

/-! ## What a row of statements declares -/

/-- Some statement of the row declares an item. -/
def declaresAny (r : Reader) : List (List Char) → Bool
  | [] => false
  | s :: rest => r.declares s || (r.statement s).1.declaresAny rest

def recognisesAny (r : Reader) : List (List Char) → Bool
  | [] => false
  | s :: rest => r.recognises s || (r.statement s).1.recognisesAny rest

/-- The statements of a line with the comment lines of the items they declare: those above the line
for the first statement that takes them, the comment behind the line for the last item. -/
def attributed (takes : Reader → List Char → Bool) (r : Reader) (above behind : List String) :
    List (List Char) → List (List Char × List String)
  | [] => []
  | s :: rest =>
      let next := (r.statement s).1
      let docs :=
        if r.declares s then above ++ (if next.declaresAny rest then [] else behind) else []
      (s, docs) :: attributed takes next (if takes r s then [] else above) behind rest

end Reader

/-! ## Lines -/

/-- What a line is to the comments around it. -/
inductive LineKind where
  | blank
  /-- A line of comment, with what it says. -/
  | comment (texts : List String)
  /-- A line of code, with its statements and what the comment behind them says. -/
  | code (stmts : List (List Char)) (behind : List String)
  deriving DecidableEq, Repr

namespace Schema

/-- The kinds of some lines; the flag tells whether they begin inside a block comment. -/
def lineKinds : Bool → List (List Char) → List LineKind
  | _, [] => []
  | true, raw :: rest =>
      .comment (Reader.commentText (Text.trim raw)) ::
        lineKinds (!Text.occurs ['*', '/'] (Text.trim raw)) rest
  | false, raw :: rest =>
      match Text.trim raw with
      | [] => .blank :: lineKinds false rest
      | '/' :: '/' :: text => .comment [String.ofList (Text.trim text)] :: lineKinds false rest
      | '/' :: '*' :: text =>
          .comment (Reader.commentText text) :: lineKinds (!Text.occurs ['*', '/'] text) rest
      | line =>
          let (code, comment) := Statement.splitComment line
          .code (Statement.split code) (if comment.isEmpty then [] else [String.ofList comment]) ::
            lineKinds false rest

def kindsOf (text : String) : List LineKind :=
  lineKinds false (text.toList.splitOn '\n')

/-- The statements with the comment lines right above their line, for the first item of the line.
`run` are the comment lines passed since the last other line. -/
def adjacent (r : Reader) (run : List String) : List LineKind → List (List Char × List String)
  | [] => []
  | .blank :: rest => adjacent r [] rest
  | .comment texts :: rest => adjacent r (run ++ texts) rest
  | .code stmts behind :: rest =>
      r.attributed Reader.declares run behind stmts ++ adjacent (r.take stmts) [] rest

/-- The statements with the comment lines that wait for them: a line of code on which nothing is
recognised leaves them waiting, and a declaration takes them as an item does. -/
def waiting (r : Reader) (run : List String) : List LineKind → List (List Char × List String)
  | [] => []
  | .blank :: rest => waiting r [] rest
  | .comment texts :: rest => waiting r (run ++ texts) rest
  | .code stmts behind :: rest =>
      r.attributed Reader.recognises run behind stmts ++
        waiting (r.take stmts) (if r.recognisesAny stmts then [] else run) rest

end Schema

/-- Something is recognised on the line, and no declaration stands in front of its items. -/
def Reader.answers (r : Reader) : List (List Char) → Bool
  | [] => false
  | s :: rest =>
      let next := (r.statement s).1
      if r.recognises s then r.declares s || !next.declaresAny rest else next.answers rest

/-- Every comment stands over a blank line, or over a line of code that answers it. -/
def Schema.answered (r : Reader) (run : List String) : List LineKind → Bool
  | [] => true
  | .blank :: rest => answered r [] rest
  | .comment texts :: rest => answered r (run ++ texts) rest
  | .code stmts _ :: rest => (run.isEmpty || r.answers stmts) && answered (r.take stmts) [] rest

/-! ## Comment lines of an item -/

namespace Schema

theorem annotateAll_append (s : Schema) (spot : Option Spot) (docs more : List String) :
    s.annotateAll spot (docs ++ more) = (s.annotateAll spot docs).annotateAll spot more := by
  cases spot with
  | none =>
      rfl
  | some spot =>
      exact List.foldl_append

theorem headed_annotate (schema : Schema) (spot : Spot) (comment : String) (s : List Char) :
    (schema.annotate spot comment).headed s = (schema.headed s).annotate spot comment := by
  unfold headed
  cases spot with
  | _ =>
      dsimp only [annotate]
      split
      · rfl
      · split
        · rfl
        · split
          · rfl
          · rfl

theorem headed_annotateAll (schema : Schema) (spot : Option Spot) (docs : List String)
    (s : List Char) :
    (schema.annotateAll spot docs).headed s = (schema.headed s).annotateAll spot docs := by
  cases spot with
  | none =>
      rfl
  | some spot =>
      refine (List.foldl_hom (fun schema => headed schema s) fun schema comment => ?_).symm
      exact (headed_annotate schema spot comment s).symm

end Schema

namespace Reader

theorem noted_append (r : Reader) (spot : Option Spot) (docs more : List String) :
    r.noted spot (docs ++ more) = (r.noted spot docs).noted spot more := by
  simp only [noted, Schema.annotateAll_append]

@[simp]
theorem noted_none (r : Reader) (docs : List String) : r.noted none docs = r :=
  rfl

@[simp]
theorem noted_nil (r : Reader) (spot : Option Spot) : r.noted spot [] = r := by
  cases spot with
  | _ =>
      rfl

/-- What is declared for the whole file is no item's documentation. -/
theorem declaration_noted (r : Reader) (spot : Option Spot) (docs : List String) (s : List Char) :
    (r.noted spot docs).declaration s = (r.declaration s).noted spot docs := by
  rw [declaration_eq, declaration_eq]
  simp only [noted, Schema.headed_annotateAll]

theorem deepened_noted (r : Reader) (spot : Option Spot) (docs : List String) (s : List Char) :
    (r.noted spot docs).deepened s = (r.deepened s).noted spot docs := by
  unfold deepened
  split
  · rfl
  · rfl

theorem member_eq_of_none {r : Reader} {block : Block} {s : List Char}
    (h : (r.member block s).2 = none) :
    (r.member block s).1 = r := by
  unfold member at h ⊢
  cases block with
  | _ =>
      dsimp only at h ⊢
      split at h
      · cases h
      · rfl

/-- Whether a statement is a member depends on the block alone. -/
theorem snd_member (r r' : Reader) (block : Block) (s : List Char) :
    (r.member block s).2 = (r'.member block s).2 := by
  unfold member
  cases block with
  | _ =>
      dsimp only
      split
      · rfl
      · rfl

theorem snd_openBlock (r r' : Reader) (block : Block) (name : String) :
    (r.openBlock block name).2 = (r'.openBlock block name).2 := by
  cases block with
  | _ =>
      rfl

/-- What a statement declares depends on the place where it stands. -/
theorem snd_statement {r r' : Reader} (hblock : r.block = r'.block) (hdepth : r.depth = r'.depth)
    (s : List Char) :
    (r.statement s).2 = (r'.statement s).2 := by
  rw [statement_eq, statement_eq r', hblock, hdepth]
  split
  · rfl
  · cases r'.block with
    | some block =>
        exact snd_member r r' block s
    | none =>
        dsimp only
        split
        · cases opening? s with
          | some header =>
              exact congrArg some (snd_openBlock r r' header.1 header.2)
          | none =>
              rfl
        · rfl

/-- A statement that declares no item leaves the items alone. -/
theorem statement_noted {r : Reader} {s : List Char} (h : r.declares s = false) (spot : Option Spot)
    (docs : List String) :
    (r.noted spot docs).statement s = ((r.statement s).1.noted spot docs, none) := by
  have hblock : (r.noted spot docs).block = r.block := rfl
  have hdepth : (r.noted spot docs).depth = r.depth := rfl
  have hnone : (r.statement s).2 = none := by
    simpa [declares] using h
  rw [statement_eq] at hnone
  rw [statement_eq, statement_eq r, hblock, hdepth]
  split
  · rfl
  · next hclose =>
      rw [if_neg hclose] at hnone
      cases hopen : r.block with
      | some block =>
          rw [hopen] at hnone
          have hsame := member_eq_of_none hnone
          have hnoted := (snd_member (r.noted spot docs) r block s).trans hnone
          simp only [hnoted, member_eq_of_none hnoted, hsame, deepened_noted]
      | none =>
          rw [hopen] at hnone
          dsimp only at hnone ⊢
          split
          · next htop =>
              rw [if_pos htop] at hnone
              cases hheader : opening? s with
              | some header =>
                  rw [hheader] at hnone
                  cases hnone
              | none =>
                  simp only [declaration_noted, deepened_noted]
          · rw [deepened_noted]

/-! ## What waits for an item -/

/-- The reader with no comment waiting and outside block comments. -/
def quiet (r : Reader) : Reader :=
  { r with pending := [], inComment := false }

/-- The item of a block gets what waits. -/
theorem quiet_openBlock (r : Reader) (block : Block) (name : String) :
    (r.openBlock block name).1.quiet =
      (r.quiet.openBlock block name).1.noted (some (r.openBlock block name).2) r.pending := by
  rcases r with ⟨schema, outer, depth, pending, inComment⟩
  induction pending using List.reverseRecOn with
  | nil =>
      cases block with
      | _ =>
          rfl
  | append_singleton docs line ih =>
      -- one more line is added behind the others
      have hline :
        ((Reader.mk schema outer depth (docs ++ [line]) inComment).openBlock block name).1.quiet =
          ((Reader.mk schema outer depth docs inComment).openBlock block name).1.quiet.noted
            (some ((Reader.mk schema outer depth docs inComment).openBlock block name).2)
              [line] := by
        cases block with
        | _ =>
            simp [openBlock, quiet, noted, Schema.annotateAll, Schema.annotate,
              modifyLast_append_singleton]
      rw [hline, ih, ← noted_append]
      cases block with
      | _ =>
          rfl

/-- A member gets what waits. -/
theorem quiet_member (r : Reader) (block : Block) (s : List Char) :
    (r.member block s).1.quiet = (r.quiet.member block s).1.noted (r.member block s).2
      r.pending := by
  rcases r with ⟨schema, outer, depth, pending, inComment⟩
  induction pending using List.reverseRecOn with
  | nil =>
      rw [noted_nil]
      cases block with
      | _ =>
          unfold member
          dsimp only [quiet]
          split
          · rfl
          · rfl
  | append_singleton docs line ih =>
      -- one more line is added behind the others, if there is a member to add it to
      have hline :
        ((Reader.mk schema outer depth (docs ++ [line]) inComment).member block s).1.quiet =
          ((Reader.mk schema outer depth docs inComment).member block s).1.quiet.noted
            ((Reader.mk schema outer depth docs inComment).member block s).2 [line] := by
        cases block with
        | _ =>
            unfold member
            dsimp only
            split
            · simp [quiet, noted, Schema.annotateAll, Schema.annotate, modifyLast_append_singleton,
                modifyLast_modifyLast]
            · rfl
      rw [hline, ih, snd_member (Reader.mk schema outer depth (docs ++ [line]) inComment)
        (Reader.mk schema outer depth docs inComment), noted_append]
      rfl

theorem quiet_declaration (r : Reader) (s : List Char) :
    (r.declaration s).quiet = r.quiet.declaration s := by
  rw [declaration_eq, declaration_eq]
  simp only [quiet, ite_self]

theorem quiet_deepened (r : Reader) (s : List Char) :
    (r.deepened s).quiet = r.quiet.deepened s := by
  unfold deepened
  split
  · rfl
  · rfl

/-- A statement gives what waits to the item it declares. -/
theorem quiet_statement (r : Reader) (s : List Char) :
    (r.statement s).1.quiet = (r.quiet.statement s).1.noted (r.statement s).2 r.pending := by
  have hblock : r.quiet.block = r.block := rfl
  have hdepth : r.quiet.depth = r.depth := rfl
  rw [statement_eq, statement_eq r.quiet, hblock, hdepth]
  split
  · rfl
  · cases r.block with
    | some block =>
        dsimp only
        rw [quiet_deepened, quiet_member, deepened_noted]
    | none =>
        dsimp only
        split
        · cases opening? s with
          | some header =>
              exact quiet_openBlock r header.1 header.2
          | none =>
              dsimp only
              rw [quiet_deepened, quiet_declaration, noted_none]
        · exact quiet_deepened r s

/-! ## The statements of a line -/

theorem documented_eq (r : Reader) (s : List Char) (docs : List String) :
    r.documented (s, docs) = (r.statement s).1.noted (r.statement s).2 docs :=
  rfl

theorem takeDocumented_cons (r : Reader) (s : List Char × List String)
    (stmts : List (List Char × List String)) :
    r.takeDocumented (s :: stmts) = (r.documented s).takeDocumented stmts :=
  rfl

theorem declares_bare (r : Reader) (s : List Char) : r.bare.declares s = r.declares s := by
  have hblock : r.bare.block = r.block := rfl
  have hdepth : r.bare.depth = r.depth := rfl
  rw [declares, declares, snd_statement hblock hdepth]

theorem recognises_bare (r : Reader) (s : List Char) : r.bare.recognises s = r.recognises s := by
  unfold recognises
  rw [declares_bare]
  rfl

theorem declaresAny_bare (r : Reader) (stmts : List (List Char)) :
    r.bare.declaresAny stmts = r.declaresAny stmts := by
  induction stmts generalizing r with
  | nil =>
      rfl
  | cons s stmts ih =>
      rw [declaresAny, declaresAny, declares_bare, ← bare_statement, ih]

theorem recognisesAny_bare (r : Reader) (stmts : List (List Char)) :
    r.bare.recognisesAny stmts = r.recognisesAny stmts := by
  induction stmts generalizing r with
  | nil =>
      rfl
  | cons s stmts ih =>
      rw [recognisesAny, recognisesAny, recognises_bare, ← bare_statement, ih]

/-- Which comment lines a statement gets depends on the places of the statements. -/
theorem attributed_bare (r : Reader) (above behind : List String) (stmts : List (List Char)) :
    r.bare.attributed recognises above behind stmts =
      r.attributed recognises above behind stmts := by
  induction stmts generalizing r above with
  | nil =>
      rfl
  | cons s stmts ih =>
      simp only [attributed]
      rw [declares_bare, recognises_bare, ← bare_statement, declaresAny_bare, ih]

theorem isSome_statements (r : Reader) (stmts : List (List Char)) :
    (r.statements stmts).2.isSome = r.declaresAny stmts := by
  induction stmts generalizing r with
  | nil =>
      rfl
  | cons s stmts ih =>
      rw [statements_cons, declaresAny, ← ih, Option.isSome_or, Bool.or_comm]
      rfl

theorem pending_statements (r : Reader) (stmts : List (List Char)) :
    (r.take stmts).pending = if r.recognisesAny stmts then [] else r.pending := by
  induction stmts generalizing r with
  | nil =>
      rfl
  | cons s stmts ih =>
      rw [take_cons, ih, pending_statement, recognisesAny]
      cases r.recognises s with
      | true =>
          simp
      | false =>
          rfl

theorem map_fst_attributed (takes : Reader → List Char → Bool) (r : Reader)
    (above behind : List String) (stmts : List (List Char)) :
    (r.attributed takes above behind stmts).map Prod.fst = stmts := by
  induction stmts generalizing r above with
  | nil =>
      rfl
  | cons s stmts ih =>
      simp only [attributed, List.map_cons, ih]

/-- Where nothing more is declared, an item can get its comment lines later as well. -/
theorem takeDocumented_noted {r : Reader} {stmts : List (List Char × List String)}
    (h : r.declaresAny (stmts.map Prod.fst) = false) (spot : Option Spot) (docs : List String) :
    (r.noted spot docs).takeDocumented stmts = (r.takeDocumented stmts).noted spot docs := by
  induction stmts generalizing r with
  | nil =>
      rfl
  | cons s stmts ih =>
      rcases s with ⟨s, lines⟩
      rw [List.map_cons, declaresAny, Bool.or_eq_false_iff] at h
      have hnone : (r.statement s).2 = none := by
        simpa [declares] using h.1
      have hnext : r.documented (s, lines) = (r.statement s).1 := by
        rw [documented_eq, hnone, noted_none]
      have hstep : (r.noted spot docs).documented (s, lines) =
          (r.documented (s, lines)).noted spot docs := by
        rw [documented_eq, statement_noted h.1, noted_none, hnext]
      rw [takeDocumented_cons, takeDocumented_cons, hstep, hnext, ih h.2]

/-- The statements of a line, with the comment behind it given to the last item. -/
theorem quiet_statements (r : Reader) (behind : List String) (stmts : List (List Char)) :
    ((r.statements stmts).1.noted (r.statements stmts).2 behind).quiet =
      r.quiet.takeDocumented (r.attributed recognises r.pending behind stmts) := by
  induction stmts generalizing r with
  | nil =>
      rfl
  | cons s stmts ih =>
      have hblock : r.quiet.block = r.block := rfl
      have hdepth : r.quiet.depth = r.depth := rfl
      have hspot := snd_statement hblock hdepth s
      -- the item of the first statement gets what waits, and what is given to it besides
      have hfirst : ∀ more, r.quiet.documented (s, if r.declares s then r.pending ++ more else []) =
          (r.statement s).1.quiet.noted (r.statement s).2 more := by
        intro more
        rw [documented_eq, hspot, quiet_statement]
        cases hfound : (r.statement s).2 with
        | none =>
            rfl
        | some spot =>
            rw [declares, hfound, ← noted_append]
            rfl
      have hlater := isSome_statements (r.statement s).1 stmts
      rw [statements_cons, attributed, takeDocumented_cons, ← pending_statement, hfirst]
      cases hany : (r.statement s).1.declaresAny stmts with
      | true =>
          rw [hany, Option.isSome_iff_exists] at hlater
          rcases hlater with ⟨spot, hlater⟩
          have hrest := ih (r.statement s).1
          rw [hlater] at hrest
          simpa [hlater] using hrest
      | false =>
          rw [hany] at hlater
          have hnone : ((r.statement s).1.statements stmts).2 = none := by
            simpa using hlater
          have hquiet : (r.statement s).1.quiet.declaresAny stmts = false := by
            rw [← declaresAny_bare]
            exact (declaresAny_bare (r.statement s).1 stmts).trans hany
          have hrest := ih (r.statement s).1
          rw [hnone, noted_none] at hrest
          rw [takeDocumented_noted (by rw [map_fst_attributed]; exact hquiet)]
          simp only [Bool.false_eq_true, if_false, ← hrest, hnone, Option.none_or]
          rfl

/-! ## All lines -/

theorem codeLine_eq (r : Reader) (line : List Char) : r.codeLine line =
    (r.statements (Statement.split (Statement.splitComment line).1)).1.noted
      (r.statements (Statement.split (Statement.splitComment line).1)).2
      (if (Statement.splitComment line).2.isEmpty then []
        else [String.ofList (Statement.splitComment line).2]) := by
  unfold codeLine
  dsimp only
  cases (r.statements (Statement.split (Statement.splitComment line).1)).2 with
  | none =>
      rfl
  | some spot =>
      dsimp only
      split
      · rfl
      · rfl

end Reader

namespace Schema

open Reader

theorem quiet_codeLine (r : Reader) (line : List Char) : (r.codeLine line).quiet =
    r.quiet.takeDocumented (r.attributed recognises r.pending
      (if (Statement.splitComment line).2.isEmpty then []
        else [String.ofList (Statement.splitComment line).2])
      (Statement.split (Statement.splitComment line).1)) := by
  rw [codeLine_eq, quiet_statements]

theorem pending_codeLine (r : Reader) (line : List Char) : (r.codeLine line).pending =
    if r.recognisesAny (Statement.split (Statement.splitComment line).1) then []
      else r.pending := by
  rw [codeLine_eq, ← pending_statements, ← statements_fst]
  rfl

theorem takeDocumented_append (r : Reader) (stmts more : List (List Char × List String)) :
    r.takeDocumented (stmts ++ more) = (r.takeDocumented stmts).takeDocumented more :=
  List.foldl_append

/-- The reader gives each item the comment lines that wait for it. -/
theorem quiet_foldl_line (lines : List (List Char)) (r : Reader) :
    (lines.foldl Reader.line r).quiet =
      r.quiet.takeDocumented (waiting r.bare r.pending (lineKinds r.inComment lines)) := by
  induction lines generalizing r with
  | nil =>
      cases r.inComment with
      | _ =>
          rfl
  | cons raw lines ih =>
      rw [List.foldl_cons, ih]
      cases hin : r.inComment with
      | true =>
          simp [Reader.line, lineKinds, waiting, hin, blockComment_eq]
          rfl
      | false =>
          rcases line_kind (Text.trim raw) with
            hblank | ⟨_, hcomment⟩ | ⟨_, hopen⟩ | ⟨hblank, hcomment, hopen⟩
          · simp [Reader.line, lineKinds, waiting, hin, hblank]
            rfl
          · simp [Reader.line, lineKinds, waiting, hin, hcomment]
            rfl
          · simp [Reader.line, lineKinds, waiting, hin, hopen, blockComment_eq]
            rfl
          · rcases codeLine_spec r (Text.trim raw) with ⟨hbare, hstay⟩
            have hcode : lineKinds false (raw :: lines) =
                .code (Statement.split (Statement.splitComment (Text.trim raw)).1)
                  (if (Statement.splitComment (Text.trim raw)).2.isEmpty then []
                    else [String.ofList (Statement.splitComment (Text.trim raw)).2]) ::
                  lineKinds false lines := by
              simp only [lineKinds]
            have hline : r.line raw = r.codeLine (Text.trim raw) := by
              simp only [Reader.line, hin, Bool.false_eq_true, if_false]
            rw [hcode, waiting, hline, quiet_codeLine, hbare, hstay, hin, pending_codeLine,
              attributed_bare, recognisesAny_bare, takeDocumented_append]

/-! ## Comments right above -/

end Schema

namespace Reader

/-- Without comment lines above, it does not matter who takes them. -/
theorem attributed_nil (takes takes' : Reader → List Char → Bool) (r : Reader)
    (behind : List String) (stmts : List (List Char)) :
    r.attributed takes [] behind stmts = r.attributed takes' [] behind stmts := by
  induction stmts generalizing r with
  | nil =>
      rfl
  | cons s stmts ih =>
      simp only [attributed, ite_self, ih]

/-- A line that declares no item documents nothing. -/
theorem attributed_of_not_declaresAny {r : Reader} {stmts : List (List Char)}
    (h : r.declaresAny stmts = false) (takes : Reader → List Char → Bool)
    (above behind : List String) :
    r.attributed takes above behind stmts = stmts.map fun s => (s, []) := by
  induction stmts generalizing r above with
  | nil =>
      rfl
  | cons s stmts ih =>
      rw [declaresAny, Bool.or_eq_false_iff] at h
      simp only [attributed, h.1, ih h.2, List.map_cons, Bool.false_eq_true, if_false]

/-- On a line that answers, the first item takes the comment lines above. -/
theorem attributed_of_answers {r : Reader} {stmts : List (List Char)} (h : r.answers stmts = true)
    (above behind : List String) :
    r.attributed recognises above behind stmts = r.attributed declares above behind stmts ∧
      r.recognisesAny stmts = true := by
  induction stmts generalizing r with
  | nil =>
      cases h
  | cons s stmts ih =>
      rw [answers] at h
      rw [recognisesAny, attributed, attributed]
      cases hrecognised : r.recognises s with
      | false =>
          have hdeclared : r.declares s = false := by
            rw [recognises, Bool.or_eq_false_iff] at hrecognised
            exact hrecognised.1
          rw [hrecognised] at h
          rcases ih h with ⟨hrest, hany⟩
          simp only [hdeclared, Bool.false_eq_true, if_false, hrest]
          exact ⟨trivial, hany⟩
      | true =>
          refine ⟨?_, rfl⟩
          rw [hrecognised] at h
          cases hdeclared : r.declares s with
          | true =>
              simp only [if_true, attributed_nil recognises declares]
          | false =>
              have hnone : (r.statement s).1.declaresAny stmts = false := by
                simpa [hdeclared] using h
              simp only [attributed_of_not_declaresAny hnone]

end Reader

namespace Schema

open Reader

theorem waiting_eq_adjacent {r : Reader} {run : List String} {kinds : List LineKind}
    (h : answered r run kinds = true) : waiting r run kinds = adjacent r run kinds := by
  induction kinds generalizing r run with
  | nil =>
      rfl
  | cons kind kinds ih =>
      cases kind with
      | blank =>
          exact ih h
      | comment texts =>
          exact ih h
      | code stmts behind =>
          rw [answered, Bool.and_eq_true, Bool.or_eq_true, List.isEmpty_iff] at h
          rcases h with ⟨rfl | hanswers, hrest⟩
          · rw [waiting, adjacent, ite_self, ih hrest, attributed_nil recognises declares]
          · rcases attributed_of_answers hanswers run behind with ⟨hline, hany⟩
            rw [waiting, adjacent, hline, hany, if_pos rfl, ih hrest]

theorem finish_quiet (r : Reader) : r.quiet.finish = r.finish :=
  rfl

/-- The comment lines that wait for an item are its documentation, and so is the comment behind the
line of which it is the last item.  Where every comment is answered, these are the comment lines
right above. -/
theorem parse_documented (text : String) :
    parse text = (takeDocumented {} (waiting {} [] (kindsOf text))).finish ∧
      (answered {} [] (kindsOf text) = true →
        parse text = (takeDocumented {} (adjacent {} [] (kindsOf text))).finish) := by
  have hparse : parse text = (takeDocumented {} (waiting {} [] (kindsOf text))).finish := by
    rw [parse, ofLines, ← finish_quiet, quiet_foldl_line]
    rfl
  refine ⟨hparse, fun hanswered => ?_⟩
  rw [hparse, waiting_eq_adjacent hanswered]

/-- Comments of every kind, each over the item it belongs to. -/
def shapeText : String :=
  "// Shapes.\nmessage A \x7b // Open.\n  /* Wide.\n   * Or not. */\n" ++
    "  bool b = 1; bool c = 2; // Last.\n\x7d\n"

theorem parse_documented_shape : answered {} [] (kindsOf shapeText) = true ∧
    parse shapeText = (takeDocumented {} (adjacent {} [] (kindsOf shapeText))).finish ∧
    parse shapeText =
      { messages := [
          { name := "A"
            docs := ["Shapes.", "Open."]
            fields := [
              { type := "bool", name := "b", number := "1", docs := ["Wide.", "Or not."] },
              { type := "bool", name := "c", number := "2", docs := ["Last."] }] }] } := by
  have hanswered : answered {} [] (kindsOf shapeText) = true := by
    decide +kernel
  refine ⟨hanswered, (parse_documented shapeText).2 hanswered, ?_⟩
  decide +kernel

/-- A comment over an option. -/
def optionText : String :=
  "// About the option.\noption java_multiple_files = true;\nmessage A \x7b\n\x7d\n"

/-- The comment waits for the message behind the option, above which no comment stands. -/
theorem parse_option_comment :
    parse optionText = { messages := [{ name := "A", docs := ["About the option."] }] } ∧
      (takeDocumented {} (adjacent {} [] (kindsOf optionText))).finish =
        { messages := [{ name := "A" }] } := by
  constructor
  · decide +kernel
  · decide +kernel

end Schema
end ApiPages

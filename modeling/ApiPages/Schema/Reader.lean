import ApiPages.Schema.Recognize
import ApiPages.Schema.Statement
import ApiPages.Text.Search

/-!
# Reading a schema

The reader goes through the lines of a file once.  It keeps the comment lines seen since the last
blank line or item, the block it is in with its brace depth, and the schema so far.

* `Reader.statement` takes one statement, `Reader.line` one line;
* `Schema.ofLines` reads a list of lines and drops a block left open at the end;
* `Schema.parse` reads a text.
-/

namespace ApiPages

open Recognize (Block)

/-- Applies a function to the last element of a list. -/
def modifyLast {α : Type} (f : α → α) : List α → List α
  | [] => []
  | [a] => [f a]
  | a :: b :: rest => a :: modifyLast f (b :: rest)

/-! ## Trailing comments -/

/-- The kinds of items a trailing comment can belong to; the item meant is the last of its kind. -/
inductive Spot where
  | service
  | rpc
  | message
  | field
  | enum
  | value
  deriving DecidableEq, Repr

/-- Adds a comment to the last item of a kind. -/
def Schema.annotate (s : Schema) (spot : Spot) (comment : String) : Schema :=
  match spot with
  | .service =>
      { s with services := modifyLast (fun x => { x with docs := x.docs ++ [comment] }) s.services }
  | .rpc =>
      { s with services := modifyLast (fun x => { x with
          rpcs :=
            modifyLast (fun r => { r with docs := r.docs ++ [comment] }) x.rpcs }) s.services }
  | .message =>
      { s with messages := modifyLast (fun x => { x with docs := x.docs ++ [comment] }) s.messages }
  | .field =>
      { s with messages := modifyLast (fun x => { x with
          fields :=
            modifyLast (fun r => { r with docs := r.docs ++ [comment] }) x.fields }) s.messages }
  | .enum =>
      { s with enums := modifyLast (fun x => { x with docs := x.docs ++ [comment] }) s.enums }
  | .value =>
      { s with enums := modifyLast (fun x => { x with
          values :=
            modifyLast (fun r => { r with docs := r.docs ++ [comment] }) x.values }) s.enums }

/-! ## The reader -/

structure Reader where
  schema : Schema := {}
  /-- The item block being read; `none` at top level and in blocks that are not items. -/
  block : Option Block := none
  depth : Nat := 0
  /-- The comment lines that wait for an item. -/
  pending : List String := []
  inComment : Bool := false
  deriving DecidableEq, Repr

namespace Reader

/-- A closing brace; a surplus one is ignored. -/
def close (r : Reader) : Reader :=
  let depth := r.depth - 1
  { r with depth, block := if depth == 0 then none else r.block }

/-- Opens an item block and gives it the pending comment. -/
def openBlock (r : Reader) (block : Block) (name : String) : Reader × Spot :=
  let docs := r.pending
  let s := r.schema
  let (schema, spot) := match block with
    | .service => ({ s with services := s.services ++ [{ name := name, docs }] }, Spot.service)
    | .message => ({ s with messages := s.messages ++ [{ name := name, docs }] }, Spot.message)
    | .enum => ({ s with enums := s.enums ++ [{ name := name, docs }] }, Spot.enum)
  ({ r with schema, block := some block, depth := 1, pending := [] }, spot)

/-- A top-level declaration.  The comment above it documents nothing and is dropped. -/
def declaration (r : Reader) (s : List Char) : Reader :=
  match Recognize.dialect? s with
  | some dialect => { r with schema := { r.schema with dialect }, pending := [] }
  | none =>
      match Recognize.package? s with
      | some package => { r with schema := { r.schema with package }, pending := [] }
      | none =>
          match Recognize.import? s with
          | some path =>
              { r with
                schema := { r.schema with imports := r.schema.imports ++ [path] }
                pending := [] }
          | none => r

/-- A statement inside an item block, read as a member of the open item. -/
def member (r : Reader) (block : Block) (s : List Char) : Reader × Option Spot :=
  match block with
  | .service =>
      match Recognize.rpc? s with
      | some rpc =>
          let rpc := { rpc with docs := r.pending }
          let services :=
            modifyLast (fun x => { x with rpcs := x.rpcs ++ [rpc] }) r.schema.services
          ({ r with schema := { r.schema with services }, pending := [] }, some .rpc)
      | none => (r, none)
  | .message =>
      match Recognize.field? s with
      | some field =>
          let field := { field with docs := r.pending }
          let messages :=
            modifyLast (fun x => { x with fields := x.fields ++ [field] }) r.schema.messages
          ({ r with schema := { r.schema with messages }, pending := [] }, some .field)
      | none => (r, none)
  | .enum =>
      match Recognize.enumValue? s with
      | some value =>
          let value := { value with docs := r.pending }
          let enums := modifyLast (fun x => { x with values := x.values ++ [value] }) r.schema.enums
          ({ r with schema := { r.schema with enums }, pending := [] }, some .value)
      | none => (r, none)

/-- A statement that opens no item block. -/
def inner (r : Reader) (s : List Char) : Reader × Option Spot :=
  let (r, spot) := match r.block with
    | none => (if r.depth == 0 then r.declaration s else r, none)
    | some block => r.member block s
  -- blocks that are no items are only counted, so that their closing braces are known
  if s.getLast? == some '\x7b' then ({ r with depth := r.depth + 1 }, spot) else (r, spot)

/-- Takes one statement; returns the item it declares, if any. -/
def statement (r : Reader) (s : List Char) : Reader × Option Spot :=
  if s == ['\x7d'] then (r.close, none)
  else if s.getLast? == some '\x7b' && r.block.isNone && r.depth == 0 then
    match Recognize.header? s with
    | some (block, name) =>
        let (r, spot) := r.openBlock block name
        (r, some spot)
    | none => r.inner s
  else r.inner s

/-- Takes the statements of a line; returns the last item declared there, if any. -/
def statements (r : Reader) (stmts : List (List Char)) : Reader × Option Spot :=
  stmts.foldl (fun (r, spot) s => let (r, found) := r.statement s; (r, found.or spot)) (r, none)

/-! ## Lines -/

/-- A line, or the rest of a line, inside a block comment. -/
def blockComment (r : Reader) (line : List Char) : Reader :=
  let (body, r) := match Text.cut? ['*', '/'] line with
    | some (body, _) => (body, { r with inComment := false })
    | none => (line, r)
  let body := match Text.trim body with
    | '*' :: rest => rest
    | body => body
  let body := Text.trim body
  if body.isEmpty then r else { r with pending := r.pending ++ [String.ofList body] }

/-- A line of code, possibly with a trailing comment. -/
def codeLine (r : Reader) (line : List Char) : Reader :=
  let (code, comment) := Statement.splitComment line
  let (r, spot) := r.statements (Statement.split code)
  match spot with
  | some spot =>
      if comment.isEmpty then r
      else { r with schema := r.schema.annotate spot (String.ofList comment) }
  | none => r

def line (r : Reader) (raw : List Char) : Reader :=
  let line := Text.trim raw
  if r.inComment then r.blockComment line
  else
    match line with
    | [] => { r with pending := [] }
    | '/' :: '/' :: rest => { r with pending := r.pending ++ [String.ofList (Text.trim rest)] }
    | '/' :: '*' :: rest => { r with inComment := true }.blockComment rest
    | _ => r.codeLine line

/-- The schema read, without a block left open. -/
def finish (r : Reader) : Schema :=
  match r.block with
  | none => r.schema
  | some .service => { r.schema with services := r.schema.services.dropLast }
  | some .message => { r.schema with messages := r.schema.messages.dropLast }
  | some .enum => { r.schema with enums := r.schema.enums.dropLast }

end Reader

/-! ## Texts -/

namespace Schema

def ofLines (lines : List (List Char)) : Schema :=
  (lines.foldl Reader.line {}).finish

def parse (text : String) : Schema :=
  ofLines (text.toList.splitOn '\n')

/-- The first line length, in bytes, that is too long to be read. -/
def lineLimit : Nat := 4194304

end Schema
end ApiPages

import ApiPages.Text.Search

/-!
# Page headers

A page begins with a header between two lines of three hyphens.  The header names the page's title,
an optional description and its place in the sidebar.

* `HeaderFormat` is how the data of a header is written and read; what is said of headers holds for
  every format, and `HeaderFormat.Keeps` is what is asked of one;
* `FrontMatter.encode` writes a header;
* `FrontMatter.split?` finds the header of a document, `FrontMatter.parse` reads it;
* `FrontMatter.ensure` gives a document a header unless it has one.
-/

namespace ApiPages

structure FrontMatter where
  title : String := ""
  description : String := ""
  /-- The place in the sidebar. -/
  order : Int := 0
  deriving DecidableEq, Repr

/-! ## Formats -/

/-- The text of a header, and how it is understood.  The last line is ended as the others are. -/
structure HeaderFormat where
  write : FrontMatter → String
  read? : String → Option FrontMatter
  exists_write_eq : ∀ h, ∃ text, write h = text ++ "\n"

/-- What a format promises about a header that it writes as a document of its own. -/
structure HeaderFormat.Keeps (f : HeaderFormat) (h : FrontMatter) : Prop where
  /-- Line breaks are line feeds; a carriage return in a text is written as an escape. -/
  return_not_mem : '\r' ∉ (f.write h).toList
  /-- A line of three hyphens would begin another document. -/
  marker_not_mem : "---".toList ∉ (f.write h).toList.splitOn '\n'
  /-- The lines are understood as what was written, also if the last one is not ended. -/
  read?_lines : ∀ text, f.write h = text ++ "\n" → f.read? text = some h

namespace FrontMatter

/-! ## Writing -/

/-- The header as a delimited block followed by a blank line. -/
def encode (f : HeaderFormat) (h : FrontMatter) : String :=
  "---\n" ++ f.write h ++ "---\n\n"

/-! ## Finding -/

/-- Passes one line break. -/
def lineBreak? : List Char → Option (List Char)
  | '\r' :: '\n' :: rest => some rest
  | '\n' :: rest => some rest
  | _ => none

/-- Passes a line of three hyphens. -/
def delimiter? (cs : List Char) : Option (List Char) :=
  (['-', '-', '-'].isPrefixOf? cs).bind lineBreak?

/-- Searches for the closing delimiter: returns the text before its line break, and what follows the
delimiter. -/
def findEnd (before : List Char) (cs : List Char) : Option (List Char × List Char) :=
  match (lineBreak? cs).bind delimiter? with
  | some rest => some (before.reverse, rest)
  | none =>
      match cs with
      | [] => none
      | c :: rest => findEnd (c :: before) rest

/-- The text of a document's header and the document after it. -/
def split? (src : String) : Option (String × String) := do
  let rest ← delimiter? src.toList
  let (header, body) ← findEnd [] rest
  return (String.ofList header, String.ofList body)

def isPresent (src : String) : Bool :=
  (split? src).isSome

/-! ## Reading -/

/-- Why a header could not be read. -/
inductive ParseError where
  | missing
  | malformed
  deriving DecidableEq, Repr

/-- The header of a document and the document after it. -/
def parse (f : HeaderFormat) (src : String) : Except ParseError (FrontMatter × String) :=
  match split? src with
  | none => .error .missing
  | some (header, body) =>
      match f.read? header with
      | none => .error .malformed
      | some h => .ok (h, body)

/-! ## Completing -/

/-- Gives a document a header unless it has one. -/
def ensure (f : HeaderFormat) (src : String) (h : FrontMatter) : String :=
  if isPresent src then src else h.encode f ++ src

end FrontMatter
end ApiPages

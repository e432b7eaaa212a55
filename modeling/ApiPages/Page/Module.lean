import ApiPages.Graph.Link
import ApiPages.Markdown.Heading
import ApiPages.Markdown.Links
import ApiPages.Markdown.Shell
import ApiPages.Page.Basic
import ApiPages.Text.Case
import ApiPages.TypeExpr.Format

/-!
# Pages of a module tree

Each module of a tree has a page.  The root's page is named for the way the tree is presented, the
others follow the module path.  A page holds the module's documentation and a section for each kind
of entry.

* `ModulePages.frame` names and titles a page, `ModulePages.body` fills it;
* `ModulePages.types` are the types a page shows, in the order they are written;
* `ModulePages.render` are the pages of a tree.
-/

namespace ApiPages

structure PageOptions where
  /-- Stands for the root's own name in titles and paths. -/
  crateName : String := ""
  /-- The title of the root page of an executable. -/
  runtimeTitle : String := ""
  extension : String := ""
  /-- The address under which the pages are served; without one, links are left alone. -/
  linkBase : String := ""
  deriving DecidableEq, Repr

namespace ModulePages

/-! ## Frames -/

/-- The module path with the root renamed. -/
def displayPath (opts : PageOptions) (m : Module) : List String :=
  match m.path with
  | [] => []
  | root :: rest => (if opts.crateName.isEmpty then root else opts.crateName) :: rest

/-- The page of a module, without its body. -/
def frame (opts : PageOptions) (mode : Mode) (m : Module) : Page :=
  let ext := Page.normalExtension opts.extension
  let display := displayPath opts m
  let root := display.headD ""
  let (file, title, order) : String × String × Int :=
    if m.isRoot then
      match mode with
      | .executable =>
          ("runtime" ++ ext,
            if opts.runtimeTitle.isEmpty then root ++ " Runtime" else opts.runtimeTitle, 2)
      | .library => ("crate" ++ ext, root ++ " Library", 1)
    else
      (SlashPath.join (display.dropLast ++ [m.name ++ ext]), Text.joined "::" display,
        (display.dropLast.length : Int) + 10)
  { file, title, description := "Rust API documentation for " ++ title, order, body := "" }

/-- The address a page is served under. -/
def pageUrl (opts : PageOptions) (file : String) : String :=
  Text.cutSuffix opts.linkBase "/" ++ "/" ++
    Text.lower (Text.cutSuffix file (SlashPath.ext file)) ++ "/"

/-! ## Links -/

/-- The address of a link target. -/
def targetUrl? (opts : PageOptions) (t : Tree) : LinkTarget → Option String
  | .external url => some url
  | .internal id item =>
      (t.modules.find? (·.id == id)).map fun m =>
        pageUrl opts (frame opts t.mode m).file ++
          (if item.isEmpty then "" else "#" ++ Text.lower item)

/-- The link texts of an item with the addresses they lead to. -/
def linkTable (opts : PageOptions) (t : Tree) (links : List (String × ItemId)) :
    Markdown.LinkTable :=
  if opts.linkBase.isEmpty then []
  else
    links.filterMap fun (text, id) =>
      ((t.resolve? id).bind (targetUrl? opts t)).map fun url => (text, url)

/-! ## Documentation -/

/-- Documentation prepared for a place below a heading: headings moved down, shell blocks framed,
links resolved. -/
def docs (survey : Markdown.Surveyor) (table : Markdown.LinkTable) (top : Int) (text : String) :
    String :=
  let text := Text.strip text
  if text.isEmpty then ""
  else
    let text := Markdown.frameShellBlocks survey (Markdown.demoteHeadings survey top text)
    if table.isEmpty then text else Markdown.resolveLinks survey table text

/-- What the sections need to know: how documentation of an entry is rendered. -/
structure Renderer where
  docs : String → List (String × ItemId) → Int → String

def itemDocs (r : Renderer) (e : Entry) : String :=
  let text := r.docs e.docs e.links 4
  (if text.isEmpty then "*No documentation available.*" else text) ++ "\n\n"

/-! ## Entries -/

def heading (name : String) : String := "### `" ++ name ++ "`\n\n"

def rust (code : String) : String := "```rust\n" ++ code ++ "\n```\n\n"

def param (p : TypedName) : String :=
  if p.name.isEmpty then p.type.format else p.name ++ ": " ++ p.type.format

def signature (name : String) (params : List TypedName) (output : TypeExpr) : String :=
  "fn " ++ name ++ "(" ++ Text.joined ", " (params.map param) ++ ")" ++
    (if output.isAbsent then "" else " -> " ++ output.format)

/-- A field; one whose type is not known is shown as empty. -/
def fieldLine (f : TypedName) : String :=
  "  pub " ++ f.name ++ ": " ++ (if f.type.isAbsent then "()" else f.type.format) ++ ",\n"

/-- The text of an entry with the title of its section; modules have pages of their own. -/
def entryText? (r : Renderer) (e : Entry) : Option (String × String) :=
  let docs := itemDocs r e
  match e.detail with
  | .module => none
  | .function params output =>
      some ("Functions",
        heading e.name ++ rust (signature e.name params output) ++ docs ++ "---\n\n")
  | .struct fields =>
      let code :=
        if fields.isEmpty then "struct " ++ e.name ++ ";"
        else "struct " ++ e.name ++ " \x7b\n" ++ String.join (fields.map fieldLine) ++ "\x7d"
      some ("Structs", heading e.name ++ docs ++ rust code ++ "---\n\n")
  | .enum variants =>
      let code :=
        "enum " ++ e.name ++ " \x7b\n" ++ String.join (variants.map fun v => "  " ++ v ++ ",\n") ++
          "\x7d"
      some ("Enums", heading e.name ++ docs ++ rust code ++ "---\n\n")
  | .trait members =>
      let list :=
        if members.isEmpty then ""
        else "**Items:**\n\n" ++ String.join (members.map fun m => "- `" ++ m ++ "`\n") ++ "\n"
      some ("Traits", heading e.name ++ docs ++ list ++ "---\n\n")
  | .constant type expression =>
      let value := if expression.isEmpty then "" else " = " ++ expression
      some ("Constants",
        heading e.name ++ rust ("const " ++ e.name ++ ": " ++ type.format ++ value ++ ";") ++
          docs ++ "---\n\n")
  | .alias type =>
      some ("Type Aliases",
        heading e.name ++ rust ("type " ++ e.name ++ " = " ++ type.format ++ ";") ++ docs ++
          "---\n\n")

/-- The sections of a page, in the order they stand on it. -/
def sections : List String :=
  ["Functions", "Structs", "Enums", "Traits", "Constants", "Type Aliases"]

/-- A section of a page, unless it has no entries. -/
def sectionText (entries : List (String × String)) (title : String) : String :=
  let own := entries.filter (·.1 == title)
  if own.isEmpty then "" else "## " ++ title ++ "\n\n" ++ String.join (own.map (·.2))

/-- The body of a module's page. -/
def body (r : Renderer) (m : Module) : String :=
  let text := r.docs m.docs m.links 2
  (if text.isEmpty then "No description available." else text) ++ "\n\n" ++
    String.join (sections.map (sectionText (m.entries.filterMap (entryText? r))))

/-! ## Types shown -/

/-- The types an entry shows. -/
def entryTypes (e : Entry) : List TypeExpr :=
  match e.detail with
  | .function params output =>
      params.map (·.type) ++ (if output.isAbsent then [] else [output])
  | .struct fields => (fields.map (·.type)).filter (fun t => !t.isAbsent)
  | .constant type _ => [type]
  | .alias type => [type]
  | _ => []

/-- The place of an entry's section on the page. -/
def sectionRank (e : Entry) : Nat :=
  match e.detail with
  | .function _ _ => 0
  | .struct _ => 1
  | .enum _ => 2
  | .trait _ => 3
  | .constant _ _ => 4
  | .alias _ => 5
  | .module => 6

/-- The types a page shows, in the order they are written. -/
def types (m : Module) : List TypeExpr :=
  (List.range 6).flatMap fun rank =>
    (m.entries.filter (fun e => sectionRank e == rank)).flatMap entryTypes

/-! ## Pages -/

/-- The renderer of a tree's documentation. -/
def renderer (survey : Markdown.Surveyor) (opts : PageOptions) (t : Tree) : Renderer where
  docs text links top := docs survey (linkTable opts t links) top text

/-- The pages of a tree, one for each module. -/
def render (survey : Markdown.Surveyor) (opts : PageOptions) (t : Tree) : List Page :=
  t.modules.map fun m =>
    { frame opts t.mode m with body := body (renderer survey opts t) m }

/-- What could not be formatted on the pages of a tree. -/
def notes (t : Tree) : List TypeExpr.Gap :=
  t.modules.flatMap fun m => (types m).flatMap TypeExpr.notes

end ModulePages
end ApiPages

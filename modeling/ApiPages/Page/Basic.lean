import ApiPages.FrontMatter
import ApiPages.Text.SlashPath
import ApiPages.Text.Utf8

/-!
# Pages

A `Page` is one generated file: a name relative to the output directory, the data of its header and
a body.
-/

namespace ApiPages

structure Page where
  file : String
  title : String
  description : String
  /-- The place in the sidebar. -/
  order : Int
  body : String
  deriving DecidableEq, Repr

namespace Page

def frontMatter (p : Page) : FrontMatter :=
  { title := p.title, description := p.description, order := p.order }

/-- The contents of the page's file. -/
def content (f : HeaderFormat) (p : Page) : String :=
  p.frontMatter.encode f ++ p.body

def bytes (f : HeaderFormat) (p : Page) : List UInt8 :=
  Utf8.encoded (p.content f).toList

/-! ## File names -/

def defaultExtension : String := ".mdx"

/-- A file extension with its point. -/
def normalExtension (ext : String) : String :=
  if ext.isEmpty then defaultExtension
  else if ext.toList.head? == some '.' then ext
  else "." ++ ext

/-! ## Tables -/

/-- A text as the content of a table cell: it stays on one line and its bars are escaped. -/
def cell (s : String) : String :=
  String.ofList (s.toList.flatMap fun c =>
    if c == '|' then ['\\', '|'] else if c == '\n' then [' '] else [c])

end Page
end ApiPages

import ApiPages.Page.Basic
import ApiPages.Schema.Basic
import ApiPages.Text.Search

/-!
# Pages of interface schemas

One page describes one schema.  Its sections stand in a fixed order, and empty ones are left out.

* `SchemaPage.fileName` names the page of a definition file;
* `SchemaPage.page` renders it;
* `SchemaPage.placeholder` stands in when there is nothing to describe.
-/

namespace ApiPages
namespace SchemaPage

/-! ## Names -/

/-- The name of a definition file without directory and extension. -/
def baseName (file : String) : String :=
  let base := SlashPath.base file
  Text.cutSuffix base (SlashPath.ext base)

/-- The page of a definition file; the main interface description has a name of its own. -/
def fileName (file ext : String) : String :=
  if SlashPath.base file == "service.proto" then "api" ++ Page.normalExtension ext
  else baseName file ++ Page.normalExtension ext

/-! ## Sections -/

def docs (lines : List String) : String :=
  if lines.isEmpty then "" else Text.joined "\n" lines ++ "\n\n"

/-- A section with a heading, unless it has no entries. -/
def titled {α : Type} (title : String) (entries : List α) (render : α → String) : String :=
  if entries.isEmpty then ""
  else "## " ++ title ++ "\n\n" ++ String.join (entries.map render)

def heading (level : Nat) (name : String) : String :=
  Text.repeated level '#' ++ " `" ++ name ++ "`\n\n"

def streamed (type : String) (isStream : Bool) : String :=
  if isStream then "stream " ++ type else type

def rpc (r : Rpc) : String :=
  heading 5 r.name ++ docs r.docs ++ "```protobuf\nrpc " ++ r.name ++ "(" ++
    streamed r.request r.clientStreaming ++ ") returns (" ++
    streamed r.response r.serverStreaming ++ ")\n```\n\n---\n\n"

def service (s : Service) : String :=
  heading 3 s.name ++ docs s.docs ++
    if s.rpcs.isEmpty then "" else "#### RPC Methods\n\n" ++ String.join (s.rpcs.map rpc)

/-- The type of a field with its label; of two labels the repetition is shown. -/
def fieldType (f : MessageField) : String :=
  if f.isRepeated then "repeated " ++ f.type
  else if f.isOptional then "optional " ++ f.type
  else f.type

/-- The comment lines of an entry as one table cell. -/
def remark (lines : List String) : String :=
  if lines.isEmpty then "-" else Page.cell (Text.joined " " lines)

def fieldRow (f : MessageField) : String :=
  "| `" ++ f.name ++ "` | `" ++ Page.cell (fieldType f) ++ "` | " ++ f.number ++ " | " ++
    remark f.docs ++ " |\n"

def message (m : Message) : String :=
  heading 3 m.name ++ docs m.docs ++
    (if m.fields.isEmpty then ""
      else "#### Fields\n\n| Field | Type | Number | Description |\n" ++
        "|-------|------|--------|-------------|\n" ++ String.join (m.fields.map fieldRow) ++
        "\n") ++
    "---\n\n"

def valueRow (v : EnumValue) : String :=
  "| `" ++ v.name ++ "` | " ++ v.number ++ " | " ++ remark v.docs ++ " |\n"

def enumeration (e : EnumDecl) : String :=
  heading 3 e.name ++ docs e.docs ++
    (if e.values.isEmpty then ""
      else "| Name | Number | Description |\n|------|--------|-------------|\n" ++
        String.join (e.values.map valueRow) ++ "\n") ++
    "---\n\n"

def body (s : Schema) : String :=
  (if s.package.isEmpty then "" else "## Package\n\n`" ++ s.package ++ "`\n\n") ++
    (if s.dialect.isEmpty then "" else "**Syntax:** `" ++ s.dialect ++ "`\n\n") ++
    (if s.imports.isEmpty then ""
      else "## Imports\n\n" ++ String.join (s.imports.map fun i => "- `" ++ i ++ "`\n") ++ "\n") ++
    titled "Services" s.services service ++ titled "Messages" s.messages message ++
    titled "Enums" s.enums enumeration

/-! ## Pages -/

/-- The page of a definition file. -/
def page (file : String) (s : Schema) (ext : String) : Page :=
  let base := baseName file
  { file := fileName file ext
    title := match s.services with
      | first :: _ => first.name ++ " Service"
      | [] => base ++ " API"
    description :=
      "gRPC API documentation for " ++ (if s.package.isEmpty then base else s.package)
    order := 1
    body := body s }

/-- The header of a page that a tool has written without one. -/
def toolFrontMatter (file : String) : FrontMatter :=
  { title := baseName file ++ " API"
    description :=
      "Protocol Buffer definitions and gRPC service documentation for " ++ baseName file
    order := 1 }

/-- The page that stands for the reference when there are no definition files. -/
def placeholder (ext : String) : Page :=
  { file := "api" ++ Page.normalExtension ext
    title := "gRPC API Reference"
    description := "Protocol Buffer definitions and gRPC service documentation"
    order := 1
    body := "## Protocol Buffer Definitions\n\n" ++
      "No `.proto` files were found when this page was generated.\n\n" ++
      "## Service Overview\n\n" ++
      "*API documentation will be generated automatically from Protocol Buffer definitions once " ++
      "they are available.*\n" }

end SchemaPage
end ApiPages

import ApiPages.Markdown.Survey
import ApiPages.Text.Blank
import ApiPages.Text.Search

/-!
# Resolving links

A table says what the destinations of a document's links stand for.  Links are redirected in place,
and a name that only stands in brackets gets a definition at the end.

* `replacements` are the entries of the table that the document uses;
* `replaceInline` redirects inline links, `replaceDefinition` the definition on a line;
* `shortcuts` are the definitions to append;
* `resolveLinks` puts them together.
-/

namespace ApiPages
namespace Markdown

/-- Destinations and what they stand for. -/
abbrev LinkTable := List (String × String)

/-- The entries for the destinations used, each once, in the order of their first use. -/
def replacements (table : LinkTable) (destinations : List String) : LinkTable :=
  (destinations.foldl (fun seen d => if seen.contains d then seen else seen ++ [d]) []).filterMap
    fun d => (table.lookup d).map fun new => (d, new)

/-! ## Links in place -/

/-- Redirects the inline links to one destination. -/
def replaceInline (src : List Char) (r : String × String) : List Char :=
  Text.replaceAll ("](" ++ r.1 ++ ")").toList ("](" ++ r.2 ++ ")").toList src

/-- Redirects the definition that ends a line, if it leads to one of the destinations. -/
def replaceDefinition (rs : LinkTable) (line : List Char) : List Char :=
  match rs.find? fun r => ("]: " ++ r.1).toList.isSuffixOf (Text.trim line) with
  | some r => Text.replaceFirst ("]: " ++ r.1).toList ("]: " ++ r.2).toList line
  | none => line

/-- Redirects the links of a document. -/
def replaceLinks (rs : LinkTable) (src : List Char) : List Char :=
  if rs.isEmpty then src
  else
    ['\n'].intercalate
      (((rs.foldl replaceInline src).splitOn '\n').map (replaceDefinition rs))

/-! ## Shortcuts -/

/-- The definitions of the names that stand in brackets and are defined nowhere, in the order of the
names. -/
def shortcuts (table rs : LinkTable) (src : List Char) : List String :=
  let keys := (table.map (·.1)).mergeSort (· ≤ ·)
  keys.filterMap fun key =>
    let isUsed := Text.occurs ("[" ++ key ++ "]").toList src
    let isDefined := Text.occurs ("[" ++ key ++ "]: ").toList src
    -- a name that is also a destination in the text has been redirected in place
    if (rs.lookup key).isSome || !isUsed || isDefined then none
    else (table.lookup key).map fun new => "[" ++ key ++ "]: " ++ new

/-- Redirects a document's links by a table. -/
def resolveLinks (survey : Surveyor) (table : LinkTable) (src : String) : String :=
  if table.isEmpty then src
  else
    let rs := replacements table (survey src).destinations
    let body := replaceLinks rs src.toList
    let defs := shortcuts table rs body
    if defs.isEmpty then String.ofList body
    else
      String.ofList (Text.trimEnd (· == '\n') body) ++ "\n\n" ++ Text.joined "\n" defs

end Markdown
end ApiPages

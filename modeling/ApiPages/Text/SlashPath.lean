import ApiPages.Text.Search

/-!
# Slash-separated paths

Lexical operations on paths: nothing here looks at a file system.

* `clean` is the shortest path with the same lexical meaning;
* `join` glues non-empty parts with slashes and cleans the result;
* `base`, `dir` and `ext` are the last element, all but the last element, and the extension.
-/

namespace ApiPages
namespace SlashPath

/-! ## Cleaning -/

/-- Whether the path starts at the root. -/
def isRooted (p : String) : Bool :=
  p.toList.head? == some '/'

/-- One element is pushed on the reversed stack of kept elements: empty elements and `.` vanish,
`..` cancels the element before it, and above the root there is nothing. -/
def pushElement (rooted : Bool) (kept : List (List Char)) (e : List Char) : List (List Char) :=
  if e.isEmpty || e == ['.'] then kept
  else if e == ['.', '.'] then
    match kept with
    | [] => if rooted then [] else [e]
    | last :: before => if last == ['.', '.'] then e :: kept else before
  else e :: kept

/-- The elements of the cleaned path. -/
def elements (p : String) : List (List Char) :=
  ((p.toList.splitOn '/').foldl (pushElement (isRooted p)) []).reverse

def clean (p : String) : String :=
  let body := ['/'].intercalate (elements p)
  if isRooted p then String.ofList ('/' :: body)
  else if body.isEmpty then "."
  else String.ofList body

/-- The non-empty parts joined by slashes and cleaned; empty when there is no such part. -/
def join (parts : List String) : String :=
  match parts.filter (fun p => !p.isEmpty) with
  | [] => ""
  | kept => clean (Text.joined "/" kept)

/-! ## Elements -/

/-- Everything after the last slash. -/
def lastElement (p : List Char) : List Char :=
  (p.reverse.takeWhile (· != '/')).reverse

/-- Everything up to and including the last slash. -/
def beforeLast (p : List Char) : List Char :=
  (p.reverse.dropWhile (· != '/')).reverse

def base (p : String) : String :=
  if p.isEmpty then "."
  else
    let cs := (p.toList.reverse.dropWhile (· == '/')).reverse
    if cs.isEmpty then "/" else String.ofList (lastElement cs)

def dir (p : String) : String :=
  clean (String.ofList (beforeLast p.toList))

/-- From the last dot of the last element on, or empty without a dot there. -/
def ext (p : String) : String :=
  let last := lastElement p.toList
  if last.contains '.' then
    String.ofList ('.' :: (last.reverse.takeWhile (· != '.')).reverse)
  else ""

/-- The last element without its extension. -/
def stem (p : String) : String :=
  Text.cutSuffix (base p) (ext (base p))

end SlashPath
end ApiPages

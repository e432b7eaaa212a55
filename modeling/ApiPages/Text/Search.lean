/-!
# Finding and replacing

Plain substring operations on character lists, with string forms for the callers that hold
strings.

* `cut?` splits at the first occurrence of a needle;
* `replaceAll`, `replaceFirst` substitute non-overlapping occurrences from the left;
* `cutPrefix`, `cutSuffix` drop a fixed beginning or ending when it is there.
-/

namespace ApiPages
namespace Text

/-! ## Searching -/

/-- What stands before and after the first occurrence of `needle`. -/
def cut? (needle : List Char) (cs : List Char) : Option (List Char × List Char) :=
  go [] cs
where
  go (before : List Char) (rest : List Char) : Option (List Char × List Char) :=
    match needle.isPrefixOf? rest with
    | some after => some (before.reverse, after)
    | none =>
        match rest with
        | [] => none
        | c :: more => go (c :: before) more

def occurs (needle : List Char) (cs : List Char) : Bool :=
  (cut? needle cs).isSome

/-- Cuts a string at the first occurrence of a character; the second half is empty without one. -/
def cutAt (mark : Char) (s : String) : String × String :=
  let cs := s.toList
  (String.ofList (cs.takeWhile (· != mark)), String.ofList ((cs.dropWhile (· != mark)).drop 1))

/-! ## Replacing -/

/-- Replaces every occurrence of a non-empty needle, scanning from the left without overlap. -/
def replaceAll (needle new : List Char) (cs : List Char) : List Char :=
  go 0 cs
where
  go : Nat → List Char → List Char
    | _, [] => []
    | skip + 1, _ :: rest => go skip rest
    | 0, c :: rest =>
        if needle.isPrefixOf (c :: rest) then new ++ go (needle.length - 1) rest
        else c :: go 0 rest

def replaceFirst (needle new : List Char) (cs : List Char) : List Char :=
  match cut? needle cs with
  | some (before, after) => before ++ new ++ after
  | none => cs

/-- Replaces every occurrence of a non-empty part of a string. -/
def replaced (s part new : String) : String :=
  String.ofList (replaceAll part.toList new.toList s.toList)

/-! ## Fixed beginnings and endings -/

def startsWith (s head : String) : Bool :=
  head.toList.isPrefixOf s.toList

def endsWith (s tail : String) : Bool :=
  tail.toList.isSuffixOf s.toList

/-- The string after a fixed beginning, or the whole string when it begins otherwise. -/
def cutPrefix (s head : String) : String :=
  match head.toList.isPrefixOf? s.toList with
  | some rest => String.ofList rest
  | none => s

/-- The string before a fixed ending, or the whole string when it ends otherwise. -/
def cutSuffix (s tail : String) : String :=
  match tail.toList.isSuffixOf? s.toList with
  | some rest => String.ofList rest
  | none => s

/-! ## Lines and lists -/

/-- The pieces between the occurrences of a character; a text without it is one piece. -/
def pieces (mark : Char) (s : String) : List String :=
  (s.toList.splitOn mark).map String.ofList

/-- Joins strings with a separator between neighbours. -/
def joined (separator : String) (parts : List String) : String :=
  separator.intercalate parts

/-- The number of bytes of the text in UTF-8. -/
def byteLength (cs : List Char) : Nat :=
  cs.foldl (fun n c => n + c.utf8Size) 0

/-- Copies of a character, as a string. -/
def repeated (n : Nat) (c : Char) : String :=
  String.ofList (List.replicate n c)

end Text
end ApiPages

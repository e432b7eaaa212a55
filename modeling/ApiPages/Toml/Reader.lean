import ApiPages.Toml.Scalar
import ApiPages.Toml.Table

/-!
# Reading settings files

A settings file is a row of lines: `key = value`, a header in one or two pairs of brackets, or
nothing but a comment.

* `Toml.keys?` reads a key, which may be dotted;
* `Toml.value?` reads a value with the lists and tables inside it;
* `Toml.parse?` reads a whole file.

The recursion through values is bounded by a fuel argument, set to more than the number of steps a
text of that length can take.
-/

namespace ApiPages
namespace Toml

/-! ## Blanks and comments -/

/-- The text after a comment, at the end of its line; a comment holds no control characters. -/
def afterComment? (cs : List Char) : Option (List Char) :=
  let rest := cs.dropWhile isPlain
  if rest.isEmpty || (lineBreak? rest).isSome then some rest else none

/-- Skips blanks and an optional comment up to the end of the line. -/
def endOfLine? (cs : List Char) : Option (List Char) :=
  match skipGap cs with
  | '#' :: rest => afterComment? rest
  | rest => some rest

/-- Skips blanks, comments and line breaks. -/
def skipLines : Nat → List Char → Option (List Char)
  | 0, _ => none
  | fuel + 1, cs =>
      match endOfLine? cs with
      | none => none
      | some rest =>
          match lineBreak? rest with
          | some more => skipLines fuel more
          | none => some rest

/-! ## Keys -/

def isKeyChar (c : Char) : Bool :=
  c.isAlphanum || c == '-' || c == '_'

def simpleKey? (cs : List Char) : Option (String × List Char) :=
  match cs with
  | '"' :: rest => (basic [] 0 rest).map fun (k, rest) => (String.ofList k, rest)
  | '\'' :: rest => (literal [] rest).map fun (k, rest) => (String.ofList k, rest)
  | _ =>
      let key := cs.takeWhile isKeyChar
      if key.isEmpty then none else some (String.ofList key, cs.dropWhile isKeyChar)

def keys? : Nat → List Char → Option (List String × List Char)
  | 0, _ => none
  | fuel + 1, cs => do
      let (key, rest) ← simpleKey? cs
      match skipGap rest with
      | '.' :: more =>
          let (keys, rest) ← keys? fuel (skipGap more)
          return (key :: keys, rest)
      | rest => return ([key], rest)

/-! ## Values -/

mutual

def value? : Nat → List Char → Option (Setting × List Char)
  | 0, _ => none
  | fuel + 1, cs =>
      match cs with
      | '[' :: rest => (items? fuel false rest).map fun (ss, rest) => (.list ss, rest)
      | '\x7b' :: rest =>
          match skipGap rest with
          | '\x7d' :: rest => some (.table [], rest)
          | rest => (inline? fuel [] rest).map fun (es, rest) => (.table (settingsOf es), rest)
      | _ =>
          if cs.head? == some '"' || cs.head? == some '\'' then
            (string? cs).map fun (s, rest) => (.text (String.ofList s), rest)
          else
            let (word, rest) := wordSpan cs
            (word? word).map fun s => (s, rest)

/-- The rest of a list, where a comma has to come first when `after` an item. -/
def items? : Nat → Bool → List Char → Option (List Setting × List Char)
  | 0, _, _ => none
  | fuel + 1, after, cs => do
      let rest ← skipLines (cs.length + 1) cs
      match after, rest with
      | _, ']' :: rest => return ([], rest)
      | true, ',' :: rest => items? fuel false rest
      | true, _ => none
      | false, rest =>
          let (s, rest) ← value? fuel rest
          let (ss, rest) ← items? fuel true rest
          return (s :: ss, rest)

/-- The rest of a table within a line, from a key on. -/
def inline? : Nat → Entries → List Char → Option (Entries × List Char)
  | 0, _, _ => none
  | fuel + 1, es, cs => do
      let (es, rest) ← pair? fuel es cs
      match skipGap rest with
      | '\x7d' :: rest => return (es, rest)
      | ',' :: rest => inline? fuel es (skipGap rest)
      | _ => none

/-- A key with its value, entered into a table. -/
def pair? : Nat → Entries → List Char → Option (Entries × List Char)
  | 0, _, _ => none
  | fuel + 1, es, cs => do
      let (keys, rest) ← keys? (cs.length + 1) cs
      match skipGap rest with
      | '=' :: rest =>
          let (s, rest) ← value? fuel (skipGap rest)
          return (← put s keys es, rest)
      | _ => none

end

/-! ## Files -/

/-- A file read in part: its tables, and the path of the one that is being filled. -/
structure Draft where
  entries : Entries := []
  current : List String := []

/-- A header up to its closing brackets. -/
def header? (cs : List Char) (closing : List Char) : Option (List String × List Char) := do
  let (keys, rest) ← keys? (cs.length + 1) (skipGap cs)
  let rest ← closing.isPrefixOf? (skipGap rest)
  return (keys, rest)

/-- What one line says, comments aside. -/
def statement? (d : Draft) (cs : List Char) : Option (Draft × List Char) :=
  match cs with
  | '[' :: '[' :: rest => do
      let (keys, rest) ← header? rest [']', ']']
      return ({ entries := ← pushTable keys d.entries, current := keys }, rest)
  | '[' :: rest => do
      let (keys, rest) ← header? rest [']']
      return ({ entries := ← openTable keys d.entries, current := keys }, rest)
  | _ => do
      let (keys, rest) ← keys? (cs.length + 1) cs
      match skipGap rest with
      | '=' :: rest =>
          let (s, rest) ← value? (2 * rest.length + 2) (skipGap rest)
          return ({ d with entries := ← within (put s keys) d.current d.entries }, rest)
      | _ => none

def lines? : Nat → Draft → List Char → Option Draft
  | 0, _, _ => none
  | fuel + 1, d, cs => do
      let start := skipGap cs
      let isBare := start.isEmpty || start.head? == some '#' || (lineBreak? start).isSome
      let (d, rest) ← if isBare then some (d, start) else statement? d start
      let rest ← endOfLine? rest
      match rest with
      | [] => return d
      | _ =>
          let more ← lineBreak? rest
          lines? fuel d more

def parse? (text : String) : Option Setting.Members :=
  (lines? (text.length + 1) {} text.toList).map fun d => settingsOf d.entries

end Toml
end ApiPages

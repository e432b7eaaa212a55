import ApiPages.Json.Basic
import ApiPages.Text.Numeral

/-!
# Reading records out of JSON

A record is read from an object member by member, in the order of the text.  A key names a field
whatever the case of its letters, an unknown key is skipped, a later member overrides an earlier
one, `null` leaves a plain field alone, and one value of the wrong shape spoils the whole record.

The field readers `Field.text`, `Field.flag`, … take the value the field holds so far, and
`Json.record` folds them over the members.
-/

namespace ApiPages
namespace Json

/-! ## Keys -/

/-- The representative of a character among those that differ only in case.  Field names are ASCII,
so of the other characters only the long s and the Kelvin sign can stand for one of theirs. -/
def foldChar (c : Char) : Char :=
  if c == '\u017F' then 'S'
  else if c == '\u212A' then 'K'
  else c.toUpper

/-- Whether a key of the text names the field. -/
def names (key field : String) : Bool :=
  key == field || key.toList.map foldChar == field.toList.map foldChar

/-! ## Records -/

/-- Reads a record: `put` takes the record so far and one member. -/
def record {α : Type} (initial : α) (put : α → String → Json → Option α) : Json → Option α
  | .null => some initial
  | .object _ members => members.foldlM (fun r m => put r m.1 m.2) initial
  | _ => none

/-- Reads a member that may be absent: `null` clears it, an object is read on top of what is
there. -/
def optionalRecord {α : Type} (initial : α) (put : α → String → Json → Option α)
    (old : Option α) : Json → Option (Option α)
  | .null => some none
  | j => (record (old.getD initial) put j).map some

/-! ## Integers -/

/-- A whole number literal within the 64-bit range. -/
def wholeNumber? (literal : String) : Option Int :=
  let (negative, digits) := match literal.toList with
    | '-' :: ds => (true, ds)
    | ds => (false, ds)
  if digits.isEmpty || !digits.all Char.isDigit then none
  else
    let n := digits.foldl (fun n d => n * 10 + (d.toNat - '0'.toNat)) 0
    let i : Int := if negative then -n else n
    if Numeral.fitsWord i then some i else none

/-! ## Fields -/

namespace Field

def text (old : String) : Json → Option String
  | .string _ s => some s
  | .null => some old
  | _ => none

def optionalText : Json → Option (Option String)
  | .string _ s => some (some s)
  | .null => some none
  | _ => none

def flag (old : Bool) : Json → Option Bool
  | .bool b => some b
  | .null => some old
  | _ => none

def whole (old : Int) : Json → Option Int
  | .number literal => wholeNumber? literal
  | .null => some old
  | _ => none

/-- A list whose items are read later; `none` when the list itself is missing. -/
def items : Json → Option (Option (List Json))
  | .array _ js => some (some js)
  | .null => some none
  | _ => none

def texts : Json → Option (List String)
  | .array _ js => js.mapM (text "")
  | .null => some []
  | _ => none

/-- Members read later, put on top of those already there. -/
def table (old : List (String × Json)) : Json → Option (List (String × Json))
  | .object _ members => some (old ++ members)
  | .null => some []
  | _ => none

end Field

/-- The text of a literal number, or of a string; `null` reads as the empty text. -/
def identifier? : Json → Option String
  | .string _ s => some s
  | .number literal => some literal
  | .null => some ""
  | _ => none

end Json
end ApiPages

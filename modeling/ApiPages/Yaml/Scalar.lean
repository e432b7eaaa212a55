import ApiPages.Text.Decimal
import ApiPages.Text.Numeral
import ApiPages.Text.Blank

/-!
# What a plain scalar stands for

An unquoted scalar may stand for something else than its text: nothing, a truth value, a number or a
point in time.

* `Yaml.resolve` says what an unquoted scalar stands for;
* `Yaml.isReserved` says that a text has to be quoted because it, or an older reader of the format,
  would take it for something else.
-/

namespace ApiPages
namespace Yaml

/-- The reading of an unquoted scalar. -/
inductive Plain where
  | null
  | bool (b : Bool)
  | whole (n : Int)
  | decimal (d : Decimal)
  | infinity (negative : Bool)
  /-- The number that is none. -/
  | notANumber
  | instant
  | text
  deriving DecidableEq, Repr

/-- The tag that says what a scalar stands for. -/
def Plain.tag : Plain → String
  | null => "!!null"
  | bool _ => "!!bool"
  | whole _ => "!!int"
  | decimal _ | infinity _ | notANumber => "!!float"
  | instant => "!!timestamp"
  | text => "!!str"

/-! ## Words -/

def nullWords : List String := ["", "~", "null", "Null", "NULL"]

def trueWords : List String := ["true", "True", "TRUE"]

def falseWords : List String := ["false", "False", "FALSE"]

def notANumberWords : List String := [".nan", ".NaN", ".NAN"]

def infinityWords : List String := [".inf", ".Inf", ".INF"]

/-- Words that an earlier version of the format read as truth values. -/
def formerBools : List String :=
  ["y", "Y", "yes", "Yes", "YES", "on", "On", "ON", "n", "N", "no", "No", "NO", "off", "Off", "OFF"]

def word? (s : String) : Option Plain :=
  if nullWords.contains s then some .null
  else if trueWords.contains s then some (.bool true)
  else if falseWords.contains s then some (.bool false)
  else if notANumberWords.contains s then some .notANumber
  else if infinityWords.contains s || (infinityWords.map ("+" ++ ·)).contains s then
    some (.infinity false)
  else if (infinityWords.map ("-" ++ ·)).contains s then some (.infinity true)
  else none

/-! ## Whole numbers -/

/-- A whole number of 64 bits, signed, or unsigned when it has no sign. -/
def whole? (cs : List Char) : Option Int :=
  let (negative, ds) := Decimal.sign cs
  let signed := cs.length != ds.length
  match Numeral.prefixed? ds with
  | none => none
  | some n =>
      let i : Int := if negative then -n else n
      if Numeral.fitsWord i || (!signed && Numeral.fitsUnsigned n) then some i else none

/-! ## Points in time -/

/-- A number of one or two digits. -/
def shortNumber? (cs : List Char) : Option (Nat × List Char) :=
  match cs with
  | c :: d :: rest =>
      if !c.isDigit then none
      else if d.isDigit then some (Decimal.digitsValue [c, d], rest)
      else some (Decimal.digitsValue [c], d :: rest)
  | [c] => if c.isDigit then some (Decimal.digitsValue [c], []) else none
  | [] => none

def mark? (c : Char) (cs : List Char) : Option (List Char) :=
  match cs with
  | d :: rest => if c == d then some rest else none
  | [] => none

def isLeapYear (year : Nat) : Bool :=
  year % 4 == 0 && (year % 100 != 0 || year % 400 == 0)

def daysIn (year month : Nat) : Nat :=
  if month == 2 then (if isLeapYear year then 29 else 28)
  else if month == 4 || month == 6 || month == 9 || month == 11 then 30
  else 31

def date? (cs : List Char) : Option (List Char) := do
  let year := cs.takeWhile Char.isDigit
  let cs ← if year.length == 4 then mark? '-' (cs.dropWhile Char.isDigit) else none
  let (month, cs) ← shortNumber? cs
  let cs ← mark? '-' cs
  let (day, cs) ← shortNumber? cs
  if 1 ≤ month && month ≤ 12 && 1 ≤ day && day ≤ daysIn (Decimal.digitsValue year) month then
    some cs
  else none

/-- Skips a fraction of a second, if there is one. -/
def skipFraction (cs : List Char) : List Char :=
  match cs with
  | c :: d :: rest =>
      if (c == '.' || c == ',') && d.isDigit then rest.dropWhile Char.isDigit else cs
  | _ => cs

def time? (cs : List Char) : Option (List Char) := do
  let (hour, cs) ← shortNumber? cs
  let cs ← mark? ':' cs
  let (minute, cs) ← shortNumber? cs
  let cs ← mark? ':' cs
  let (second, cs) ← shortNumber? cs
  if hour < 24 && minute < 60 && second < 60 then some (skipFraction cs) else none

def isZone (cs : List Char) : Bool :=
  match cs with
  | ['Z'] => true
  | [s, a, b, ':', c, d] =>
      (s == '+' || s == '-') && [a, b, c, d].all Char.isDigit &&
        Decimal.digitsValue [a, b] ≤ 24 && Decimal.digitsValue [c, d] ≤ 60
  | _ => false

/-- A date, possibly with a time of day: in the day's own zone after a space, in a named zone after
the letter T. -/
def isInstant (cs : List Char) : Bool :=
  match date? cs with
  | none => false
  | some [] => true
  | some (c :: rest) =>
      match time? rest with
      | none => false
      | some zone => if c == ' ' then zone.isEmpty else (c == 'T' || c == 't') && isZone zone

/-! ## Resolution -/

def decimal? (cs : List Char) : Option Decimal :=
  (Decimal.ofChars? cs).filter (fun d => !d.isTooLarge)

/-- Whether every underscore stands between two digits. -/
def dividesDigits (cs : List Char) : Bool :=
  cs.getLast? != some '_' &&
    (cs.zip cs.tail).all fun (c, d) => (d != '_' || c.isDigit) && (c != '_' || d.isDigit)

/-- What digits stand for, be it a number or none.  `canBeInstant` lets them be a point in time. -/
def number (canBeInstant : Bool) (cs : List Char) : Plain :=
  if canBeInstant && isInstant cs then .instant
  else
    let bare := cs.filter (· != '_')
    match whole? bare with
    | some n => .whole n
    | none =>
        match decimal? bare with
        | some d => .decimal d
        | none => .text

/-- What an unquoted scalar looks like. -/
def looks (canBeInstant : Bool) (s : String) : Plain :=
  match word? s with
  | some p => p
  | none =>
      match s.toList with
      | [] => .null
      | c :: rest =>
          if c == '.' then
            match decimal? ((c :: rest).filter (· != '_')) with
            | some d => if dividesDigits (c :: rest) then .decimal d else .text
            | none => .text
          else if c == '+' || c == '-' || c.isDigit then number canBeInstant (c :: rest)
          else .text

/-- What an unquoted scalar stands for. -/
def resolve (s : String) : Plain := looks true s

/-! ## Reserved texts -/

/-- Minutes or seconds of a number to the base sixty. -/
def isSixtieth (ds : List Char) : Bool :=
  match ds with
  | [d] => d.isDigit
  | [c, d] => '0' ≤ c && c ≤ '5' && d.isDigit
  | _ => false

/-- A number to the base sixty, as an earlier version of the format had them. -/
def isSexagesimal (s : String) : Bool :=
  let isFiller (c : Char) : Bool := c.isDigit || c == '_'
  let (_, cs) := Decimal.sign s.toList
  let whole := cs.takeWhile (· != '.')
  let fraction := (cs.dropWhile (· != '.')).drop 1
  match whole.splitOn ':' with
  | first :: second :: more =>
      (match first with
        | d :: rest => d.isDigit && rest.all isFiller
        | [] => false) &&
      (second :: more).all isSixtieth && fraction.all isFiller
  | _ => false

/-- Whether a text would be taken for something else if it stood unquoted. -/
def isReserved (s : String) : Bool :=
  resolve s != .text || isSexagesimal s || formerBools.contains s

end Yaml
end ApiPages

import ApiPages.Text.Double

/-!
# Setting values

Settings come from files of several formats, from the environment and from the command line.  Before
they are understood they are all the same kind of value, a number being known by its spelling
without an exponent.
-/

namespace ApiPages

inductive Setting where
  | null
  | bool (value : Bool)
  | number (spelling : String)
  | text (value : String)
  /-- A date or a time, which no setting takes. -/
  | instant
  | list (items : List Setting)
  | table (members : List (String × Setting))
  deriving Repr, Inhabited

namespace Setting

abbrev Members := List (String × Setting)

/-- The words for a truth value. -/
def trueWords : List String := ["1", "t", "T", "TRUE", "true", "True"]

def falseWords : List String := ["0", "f", "F", "FALSE", "false", "False"]

/-- A number kept in double precision. -/
def ofDecimal (d : Decimal) : Setting :=
  number d.rounded.positional

/-- Enters a member, in the place of one with the same key. -/
def enter (key : String) (s : Setting) : Members → Members
  | [] => [(key, s)]
  | m :: rest => if m.1 == key then (key, s) :: rest else m :: enter key s rest

end Setting
end ApiPages

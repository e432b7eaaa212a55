/-!
# JSON values with their source text

A `Json` value remembers how it was spelled: `Json.source` gives back the text it was read from,
without the white space around it.  Numbers are kept as literals and never become machine numbers.

* `Json.members?`, `Json.items?`, `Json.text?` are the views of the three composite shapes;
* `Json.get?` looks a member up, the last of several members with one key deciding;
* `Json.depth` bounds every recursion over a value.
-/

namespace ApiPages

inductive Json where
  | null
  | bool (value : Bool)
  | number (literal : String)
  | string (src : String) (value : String)
  | array (src : String) (items : List Json)
  | object (src : String) (members : List (String × Json))
  deriving Inhabited

namespace Json

/-- The text the value was read from. -/
def source : Json → String
  | null => "null"
  | bool true => "true"
  | bool false => "false"
  | number literal => literal
  | string src _ => src
  | array src _ => src
  | object src _ => src

/-! ## Views -/

def members? : Json → Option (List (String × Json))
  | object _ members => some members
  | _ => none

def items? : Json → Option (List Json)
  | array _ items => some items
  | _ => none

def text? : Json → Option String
  | string _ value => some value
  | _ => none

def isObject (j : Json) : Bool :=
  j.members?.isSome

/-- The last member with the given key. -/
def lookup (key : String) (members : List (String × Json)) : Option Json :=
  members.reverse.lookup key

/-- The member of an object with the given key; a value that is no object has none. -/
def get? (j : Json) (key : String) : Option Json :=
  j.members?.bind (lookup key)

/-! ## Depth -/

mutual

/-- How many containers are nested in the value, itself included. -/
def depth : Json → Nat
  | array _ items => depthOfItems items + 1
  | object _ members => depthOfMembers members + 1
  | _ => 0
termination_by structural j => j

def depthOfItems : List Json → Nat
  | [] => 0
  | j :: rest => max j.depth (depthOfItems rest)
termination_by structural js => js

def depthOfMembers : List (String × Json) → Nat
  | [] => 0
  | (_, j) :: rest => max j.depth (depthOfMembers rest)
termination_by structural js => js

end

end Json
end ApiPages

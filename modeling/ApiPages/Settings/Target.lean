import ApiPages.Text.Blank
import ApiPages.Text.Quoted
import ApiPages.Text.Search

/-!
# Crate targets

A crate is documented target by target: its library, or one of its binaries.

* `Target.parse?` reads `lib` or `bin:<name>`, with blanks around it;
* `Target.label` writes a target the same way;
* `Target.stem` is the form of a target that stands in file names.
-/

namespace ApiPages

/-- A target of a crate.  The kind decides alone: everything that is not a binary is treated as the
library. -/
structure Target where
  kind : String := ""
  name : String := ""
  deriving DecidableEq, Repr, Inhabited

namespace Target

def library : Target := { kind := "lib" }

def binary (name : String) : Target := { kind := "bin", name }

def isBinary (t : Target) : Bool := t.kind == "bin"

/-! ## Reading and writing -/

def parse? (text : String) : Option Target :=
  let s := Text.strip text
  if s == "lib" then some library
  else if Text.startsWith s "bin:" && s != "bin:" then some (binary (Text.cutPrefix s "bin:"))
  else none

/-- What is said of a text that names no target. -/
def refusal (text : String) : String :=
  "invalid target " ++ Text.quoted (Text.strip text) ++ ": want lib or bin:<name>"

def label (t : Target) : String :=
  if t.isBinary then "bin:" ++ t.name else t.kind

/-! ## File names -/

/-- A crate or binary name as it stands in file names, where a hyphen becomes an underscore. -/
def fileForm (name : String) : String :=
  Text.replaced name "-" "_"

def stem (t : Target) : String :=
  if t.isBinary then fileForm t.name else "lib"

end Target
end ApiPages

import ApiPages.FrontMatter
import ApiPages.Text.Double
import ApiPages.Yaml.Decode
import ApiPages.Yaml.Reader
import ApiPages.Yaml.Writer

/-!
# Headers as YAML

The format in which the program writes and reads the headers of pages.

* `Yaml.Header.write` writes a mapping of the title, the description and the place in the sidebar;
* `Yaml.Header.read?` reads such a mapping;
* `HeaderFormat.yaml` is the format.
-/

namespace ApiPages
namespace Yaml.Header

/-! ## Writing -/

/-- The entries of a header; an empty description is left out. -/
def write (h : FrontMatter) : String :=
  "title: " ++ scalar h.title ++
    (if h.description.isEmpty then "" else "description: " ++ scalar h.description) ++
    "sidebar:\n  order: " ++ toString h.order ++ "\n"

/-! ## Reading -/

/-- A whole number in double precision, cut to 64 bits: what is below them, and the first number
above them, is the least number they can hold, and what lies further above is refused. -/
def wholeOfDecimal? (d : Decimal) : Option Int :=
  let n : Int := (Double.ofDecimal d).truncate
  let limit : Int := 0x8000000000000000
  if d.negative then some (max (-n) (-limit))
  else if n < limit then some n
  else if n == limit then some (-limit)
  else none

/-- The whole number that a scalar stands for. -/
def wholeOf? : Plain → Option Int
  | .whole i => if Numeral.fitsWord i then some i else none
  | .decimal d => wholeOfDecimal? d
  | .infinity true => some (-0x8000000000000000)
  | _ => none

/-- A whole number; nothing for a scalar that stands for nothing. -/
def whole (d : Document) (s : Spot) : Decode (Option Int) := do
  match (← Decode.target d s).node with
  | .scalar c =>
      let (p, _) ← Decode.value c
      if p == .null then return none
      else
        match wholeOf? p with
        | some i => return some i
        | none => Decode.fail
  | _ => Decode.fail

/-- Reads the members of a mapping into a record, in order.  Members without a field are ignored,
and a field that was set is set again only by a member that is lent.  Nothing but a mapping or an
empty scalar can be read. -/
def record {α : Type} (fields : List String) (put : α → String → Spot → Decode α)
    (initial : α) (d : Document) (s : Spot) : Decode α := do
  let s ← Decode.target d s
  match s.node with
  | .mapping entries =>
      let (members, _) ← Decode.members d.reach d true none s.through entries
      let known := members.filter fun m => fields.contains m.key.2
      if ((known.filter (!·.isLent)).map (·.key.2)).Nodup then
        known.foldlM (fun r m => put r m.key.2 m.value) initial
      else Decode.fail
  | .scalar c =>
      if (← Decode.value c).1 == .null then return initial else Decode.fail
  | _ => Decode.fail

def putOrder (d : Document) (order : Int) (_ : String) (s : Spot) : Decode Int := do
  return (← whole d s).getD order

def put (d : Document) (h : FrontMatter) (key : String) (s : Spot) :
    Decode FrontMatter := do
  if key == "title" then return { h with title := (← Decode.text d s).getD h.title }
  else if key == "description" then
    return { h with description := (← Decode.text d s).getD h.description }
  else return { h with order := ← record ["order"] (putOrder d) h.order d s }

/-- Reads the text of a header; keys that mean nothing here are ignored. -/
def read? (header : String) : Option FrontMatter := do
  let d ← parse? header
  let fields := ["title", "description", "sidebar"]
  let (h, _) ← (record fields (put d) {} d { node := d.root }).run {}
  return h

end Yaml.Header

/-- The header as a YAML document. -/
def HeaderFormat.yaml : HeaderFormat where
  write := Yaml.Header.write
  read? := Yaml.Header.read?
  exists_write_eq _ := ⟨_, rfl⟩

end ApiPages

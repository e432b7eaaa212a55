import ApiPages.Definition.Tree

/-!
# The form of definition files

What can be said of a file without looking up any name: which numbers and names are free, which
labels a dialect has, and what is kept for some dialects only.

* `Range.areDisjoint` says that no number lies in two ranges;
* `MessageDef.isWellFormed`, `EnumDef.isWellFormed` and `FieldDecl.isWellFormed` check declarations;
* `FileDef.isWellFormed` checks a whole file.
-/

namespace ApiPages
namespace Definition

/-! ## Numbers -/

/-- The largest number of a field. -/
def maxNumber : Nat := 536870911

/-- The largest number of an extension, in messages that hold nothing but extensions. -/
def maxSetNumber : Nat := 2147483646

/-- Whether a field can have a number: some are kept for the format itself. -/
def isFieldNumber (max n : Nat) : Bool :=
  1 ≤ n && n ≤ max && !(19000 ≤ n && n ≤ 19999)

namespace Range

/-- The last number of a range where numbers go up to `top`. -/
def lastIn (top : Int) (r : Range) : Int := r.last?.getD top

/-- Whether a range lies between two numbers and has its first number first. -/
def isWithin (low top : Int) (r : Range) : Bool :=
  low ≤ r.first && r.first ≤ r.lastIn top && r.lastIn top ≤ top

def contains (top : Int) (r : Range) (n : Int) : Bool :=
  r.first ≤ n && n ≤ r.lastIn top

/-- Whether no number lies in two ranges. -/
def areDisjoint (top : Int) (rs : List Range) : Bool :=
  decide (rs.Pairwise fun r s => r.lastIn top < s.first ∨ s.lastIn top < r.first)

end Range

/-! ## Names -/

/-- Whether a text can be the name of a declaration. -/
def isIdentifier (s : String) : Bool :=
  match s.toList with
  | [] => false
  | c :: rest =>
      (c.isAlpha || c == '_') && rest.all fun d => d.isAlphanum || d == '_'

/-- Whether names are reserved in the form of a dialect: quoted in all but the newest. -/
def reservesNames (d : Dialect) (names : List ReservedName) : Bool :=
  names.all (fun n => n.isQuoted == (d != .edition) && isIdentifier n.name) &&
    decide (names.map (·.name)).Nodup

/-! ## Options -/

namespace Options

/-- Whether features are set, which only the newest dialect has. -/
def useFeatures (os : Options) : Bool :=
  os.any fun o => o.name.head? == some (.word "features")

def fit (d : Dialect) (os : Options) : Bool := d == .edition || !os.useFeatures

/-- Whether an option is set once at most, to a truth value. -/
def isPlainFlag (os : Options) (name : String) : Bool :=
  match os.values name with
  | [] => true
  | [.word w] => w == "true" || w == "false"
  | _ => false

end Options

/-! ## Fields -/

namespace FieldDecl

/-- Whether the label of a field fits the dialect. -/
def hasLabelOf (d : Dialect) (f : FieldDecl) : Bool :=
  match d with
  | .proto2 => f.label.isSome || f.oneof.isSome
  | .proto3 => f.label != some .required && !f.options.isSet "default"
  | .edition => f.label.isNone || f.label == some .repeated

/-- Groups begin with a capital and belong to the oldest dialect. -/
def isGroupOf (d : Dialect) (f : FieldDecl) : Bool :=
  d == .proto2 && f.type.parts.head?.any fun s => s.toList.head?.any Char.isUpper

def isWellFormed (d : Dialect) (max : Nat) (f : FieldDecl) : Bool :=
  isFieldNumber max f.number && f.hasLabelOf d && (!f.isGroup || f.isGroupOf d) &&
    f.options.fit d &&
    (f.options.values "default").length ≤ 1 && (f.options.values "json_name").length ≤ 1

end FieldDecl

/-! ## Enums -/

namespace EnumDef

/-- The largest number of a value. -/
def maxValue : Int := 2147483647

def minValue : Int := -2147483648

/-- Several values have one number if and only if that is allowed. -/
def hasOwnNumbers (e : EnumDef) : Bool :=
  e.options.isTrue "allow_alias" != decide (e.values.map (·.number)).Nodup

def isReserved (e : EnumDef) (v : ValueDecl) : Bool :=
  e.reservedNames.any (·.name == v.name) || e.reserved.any (·.contains maxValue v.number)

def isWellFormed (d : Dialect) (e : EnumDef) : Bool :=
  !e.values.isEmpty && e.options.fit d && e.options.isPlainFlag "allow_alias" &&
    (d != .proto3 || e.values.head?.any (·.number == 0)) &&
    e.values.all (fun v => minValue ≤ v.number && v.number ≤ maxValue && v.options.fit d) &&
    e.hasOwnNumbers &&
    e.reserved.all (·.isWithin minValue maxValue) && Range.areDisjoint maxValue e.reserved &&
    reservesNames d e.reservedNames && e.values.all fun v => !e.isReserved v

end EnumDef

/-! ## Messages -/

namespace MessageDef

/-- Whether a message is the old kind that holds nothing but extensions. -/
def isSet (m : MessageDef) : Bool := m.options.isTrue "message_set_wire_format"

/-- The largest number in a message. -/
def top (m : MessageDef) : Nat := if m.isSet then maxSetNumber else maxNumber

def isReserved (m : MessageDef) (f : FieldDecl) : Bool :=
  m.reservedNames.any (·.name == f.name) ||
    (m.reserved ++ m.ranges.map (·.range)).any (·.contains m.top f.number)

def isWellFormed (d : Dialect) (m : MessageDef) : Bool :=
  let kept := m.reserved ++ m.ranges.map (·.range)
  m.options.fit d && m.options.isPlainFlag "message_set_wire_format" &&
    !m.options.isSet "map_entry" &&
    (!m.isSet || (d != .proto3 && m.fields.isEmpty && !m.ranges.isEmpty)) &&
    (d != .proto3 || m.ranges.isEmpty) && m.ranges.all (·.options.fit d) &&
    m.oneofs.all (·.options.fit d) &&
    kept.all (·.isWithin 1 m.top) && Range.areDisjoint m.top kept &&
    reservesNames d m.reservedNames &&
    (m.isEntry || m.fields.all (·.isWellFormed d m.top)) &&
    m.fields.all (fun f => !m.isReserved f) && decide (m.fields.map (·.number)).Nodup

end MessageDef

/-! ## Files -/

/-- The number of messages that can be nested. -/
def maxDepth : Nat := 31

/-- Whether extensions are well-formed; they are never required. -/
def ExtendDef.isWellFormed (d : Dialect) (x : ExtendDef) : Bool :=
  x.fields.all fun f => f.isWellFormed d maxSetNumber && f.label != some .required

def ServiceDef.isWellFormed (d : Dialect) (s : ServiceDef) : Bool :=
  s.options.fit d && s.methods.all (·.options.fit d)

def FileDef.isWellFormed (f : FileDef) : Bool :=
  f.options.fit f.dialect && decide (f.imports.map (·.path)).Nodup &&
    f.allMessages.all (fun m => m.outer.length < maxDepth && m.item.isWellFormed f.dialect) &&
    f.allEnums.all (·.item.isWellFormed f.dialect) &&
    f.allExtensions.all (·.item.isWellFormed f.dialect) &&
    f.services.all (·.isWellFormed f.dialect)

end Definition
end ApiPages

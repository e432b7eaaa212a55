import ApiPages.Definition.Pool

/-!
# Setting options

The options of a declaration are the fields of a message, and extensions of it.  An option is set by
the way to a field and a value of its type.

* `Literal.fitsScalar` says that a value can be that of a scalar field;
* `Assigned` is what has been set of a message;
* `Setter.assign?` sets a field, `Setter.use?` an option;
* `Setter.accepts` checks all options of a declaration.
-/

namespace ApiPages
namespace Definition

/-! ## Scalar values -/

namespace Literal

/-- Whether a value is a whole number between two. -/
def isBetween (low high : Int) : Literal → Bool
  | whole n => low ≤ n && n ≤ high
  | _ => false

/-- Whether a value is a truth value.  Inside of messages it has more names. -/
def isTruth (inMessage : Bool) : Literal → Bool
  | word w =>
      w == "true" || w == "false" || (inMessage && ["t", "True", "f", "False"].contains w)
  | _ => false

def isReal (inMessage : Bool) : Literal → Bool
  | word w =>
      w == "inf" || w == "nan" || (inMessage && ["inf", "infinity", "nan"].contains w.toLower)
  | whole _ | decimal _ => true
  | _ => false

def isText : Literal → Bool
  | text _ => true
  | _ => false

/-- Whether a value can be that of a field of a scalar type. -/
def fitsScalar (type : String) (inMessage : Bool) (v : Literal) : Bool :=
  if type == "bool" then v.isTruth inMessage
  else if type == "string" || type == "bytes" then v.isText
  else if type == "double" || type == "float" then v.isReal inMessage
  else if ["int32", "sint32", "sfixed32"].contains type then v.isBetween (-0x80000000) 0x7FFFFFFF
  else if ["uint32", "fixed32"].contains type then v.isBetween 0 0xFFFFFFFF
  else if ["int64", "sint64", "sfixed64"].contains type then
    v.isBetween (-0x8000000000000000) 0x7FFFFFFFFFFFFFFF
  else v.isBetween 0 0xFFFFFFFFFFFFFFFF

/-- Whether a scalar value is the one of a field that is not set. -/
def isZero : Literal → Bool
  | word w => w == "false" || w == "f" || w == "False"
  | text s => s.isEmpty
  | whole n => n == 0
  | decimal isZero => isZero
  | _ => false

/-- The value of a field in a message. -/
def field? (name : String) : Literal → Option Literal
  | message fields => (fields.find? fun f => f.1 == .field name).map (·.2)
  | _ => none

def text? : Literal → Option String
  | text s => some s
  | _ => none

def whole? : Literal → Option Int
  | whole n => some n
  | _ => none

def isTrue : Literal → Bool
  | word w => w == "true" || w == "True" || w == "t"
  | _ => false

end Literal

namespace Enum

/-- The number of the value that a literal names.  Inside of messages it can be the number
itself. -/
def number? (e : Enum) (inMessage : Bool) : Literal → Option Int
  | .word w => (e.item.values.find? (·.name == w)).map (·.number)
  | .whole n =>
      if inMessage && EnumDef.minValue ≤ n && n ≤ EnumDef.maxValue &&
          (!e.isClosed || e.item.values.any (·.number == n)) then some n
      else none
  | _ => none

end Enum

/-! ## What has been set -/

/-- What has been set of a field that is not repeated. -/
inductive Assigned where
  | scalar
  | message (type : String) (fields : List (String × Assigned))
  deriving Repr

/-- The fields of a message that have been set, by their full names. -/
abbrev AssignedFields := List (String × Assigned)

namespace Pool

/-- Whether all required fields of a message have been set, and those of the messages in it. -/
def isComplete (fuel : Nat) (p : Pool) (type : String) (set : AssignedFields) : Bool :=
  match fuel with
  | 0 => false
  | fuel + 1 =>
      (match p.message? type with
        | some m => m.fields.all fun f => !f.isRequired || (set.lookup f.name).isSome
        | none => false) &&
      set.all fun (_, a) =>
        match a with
        | .scalar => true
        | .message type fields => p.isComplete fuel type fields

end Pool

/-! ## Setting -/

/-- Where options are set: the declarations there are, how names of extensions are looked up, and
the kind of declaration. -/
structure Setter where
  pool : Pool
  view : View
  /-- The messages around the declaration, the innermost first. -/
  scopes : List String
  target : String

namespace Setter

/-- The extension that a name stands for, in certain scopes. -/
def extension? (s : Setter) (scopes : List String) (t : TypeName) : Option Field :=
  match s.view.resolve? false scopes t with
  | some { name, kind := .extension } => s.pool.extension? name
  | _ => none

/-- The field of a message with a name.  A group goes by the name of its message as well. -/
def field? (s : Setter) (m : Message) (name : String) : Option Field :=
  (m.fields.find? (·.decl.name == name)).or
    (m.fields.find? fun f =>
      f.isDelimited && f.decl.name == name.toLower &&
        (match f.type with
          | .message type => (s.pool.message? type).any (·.item.name == name)
          | _ => false))

/-- Whether a field can be set for the kind of declaration. -/
def mayUse (s : Setter) (f : Field) : Bool :=
  let targets := f.decl.options.values "targets"
  (targets.isEmpty || targets.any fun t =>
    match t with
    | .word w => w == "TARGET_TYPE_" ++ s.target
    | _ => false) &&
  !(s.pool.message? f.owner).any (·.item.isSet)

/-- Whether another field of the same oneof has been set. -/
def isExcluded (m : Message) (set : AssignedFields) (f : Field) : Bool :=
  f.decl.oneof.isSome &&
    m.fields.any fun g =>
      g.decl.oneof == f.decl.oneof && g.name != f.name && (set.lookup g.name).isSome

/-- The hosts that types can be looked up at. -/
def hosts : List String := ["type.googleapis.com", "type.googleprod.com"]

mutual

/-- What a value makes of a field; `none` if it does not fit the type, and nothing is set if it is
what a field is without being set and that cannot be told. -/
def value? (fuel : Nat) (s : Setter) (inMessage : Bool) (f : Field) (v : Literal) :
    Option (Option Assigned) :=
  match fuel with
  | 0 => none
  | fuel + 1 =>
      let scalar (isZero : Bool) : Option Assigned :=
        if isZero && !f.hasPresence then none else some .scalar
      match f.type with
      | .scalar type => if v.fitsScalar type inMessage then some (scalar v.isZero) else none
      | .enum name => do
          let n ← (← s.pool.enum? name).number? inMessage v
          some (scalar (n == 0))
      | .message name =>
          match v with
          | .message fields => do
              let set ← message? fuel s (← s.pool.message? name) fields
              some (some (.message name set))
          | _ => none

/-- Sets a field.  A field that is not repeated can be set once, and one field of a oneof. -/
def assign? (fuel : Nat) (s : Setter) (inMessage : Bool) (m : Message) (set : AssignedFields)
    (f : Field) (v : Literal) : Option AssignedFields :=
  match fuel with
  | 0 => none
  | fuel + 1 =>
      let item? (v : Literal) : Option Unit := do
        match ← value? fuel s inMessage f v with
        | some (.message type fields) =>
            if s.pool.isComplete fuel type fields then some () else none
        | _ => some ()
      if !s.mayUse f then none
      else
        match v with
        | .list items => if f.isRepeated then (items.forM item?).map fun _ => set else none
        | v =>
            if f.isRepeated then (item? v).map fun _ => set
            else if isExcluded m set f || (set.lookup f.name).isSome then none
            else do
              match ← value? fuel s inMessage f v with
              | some a => some (set ++ [(f.name, a)])
              | none => some set

/-- What the fields of a message literal set. -/
def message? (fuel : Nat) (s : Setter) (m : Message) (fields : List (LiteralName × Literal)) :
    Option AssignedFields :=
  match fuel with
  | 0 => none
  | fuel + 1 =>
      match fields with
      | [(.url host name, .message inner)] => do
          if m.name == "google.protobuf.Any" && hosts.contains host then
            let set ← message? fuel s (← s.pool.message? name) inner
            if s.pool.isComplete fuel name set then some [] else none
          else none
      | fields =>
          fields.foldlM (fun set (n, v) => do
            let f ← match n with
              | .field name => s.field? m name
              | .extension t => (s.extension? [] t).filter (·.owner == m.name)
              | .url .. => none
            assign? fuel s true m set f v) []

end

/-- The editions that come after the one there is. -/
def laterEditions : List String :=
  ["EDITION_2024", "EDITION_99997_TEST_ONLY", "EDITION_99998_TEST_ONLY", "EDITION_99999_TEST_ONLY",
    "EDITION_MAX"]

/-- Whether a field is there in the edition that there is. -/
def isCurrent (f : Field) : Bool :=
  (f.decl.options.values "feature_support").all fun v =>
    let isLater (name : String) : Option Bool :=
      (v.field? name).bind fun e =>
        match e with
        | .word w => some (laterEditions.contains w)
        | _ => none
    (isLater "edition_introduced").getD false == false && (isLater "edition_removed").getD true

/-- Sets an option, given the way to it. -/
def use? (fuel : Nat) (s : Setter) (m : Message) (set : AssignedFields) (isFeature : Bool)
    (way : List OptionPart) (v : Literal) : Option AssignedFields :=
  match way with
  | [] => none
  | part :: rest => do
      let f ← match part with
        | .word name => m.fields.find? (·.decl.name == name)
        | .extension t => (s.extension? s.scopes t).filter (·.owner == m.name)
      if !s.mayUse f || (isFeature && !isCurrent f) then none
      else if rest.isEmpty then assign? fuel s false m set f v
      else
        match f.type with
        | .message name => do
            if f.isRepeated || isExcluded m set f then none
            else
              let inner ← s.pool.message? name
              let before := match set.lookup f.name with
                | some (.message _ fields) => fields
                | _ => []
              let after ← s.use? fuel inner before (isFeature || part == .word "features") rest v
              some ((set.filter (·.1 != f.name)) ++ [(f.name, .message name after)])
        | _ => none

/-- A bound on how deep values and what they set can go. -/
def depth : Nat := 2000

/-- Whether options can be set one after the other. -/
def accepts (s : Setter) (type : String) (os : Options) : Bool :=
  match s.pool.message? ("google.protobuf." ++ type) with
  | none => false
  | some m =>
      let set := os.foldlM (fun set o =>
        if o.name.head? == some (.word "uninterpreted_option") then none
        else s.use? depth m set false o.name o.value) []
      set.any fun set => s.pool.isComplete depth m.name set

end Setter
end Definition
end ApiPages

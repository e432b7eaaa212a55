import ApiPages.Definition.Feature
import ApiPages.Definition.Form
import ApiPages.Definition.Symbol

/-!
# Declarations with their types

Once its names have been looked up, a file gives messages, enums and extensions whose types are
known by their full names.

* `Field`, `Message` and `Enum` are declarations with what surrounds them;
* `Pool` holds the declarations of several files;
* `FileDef.pool?` looks up the types of the fields of a file.
-/

namespace ApiPages
namespace Definition

/-! ## Types -/

inductive FieldType where
  | scalar (name : String)
  | message (name : String)
  | enum (name : String)
  deriving DecidableEq, Repr

/-- The type as declarations of extensions spell it. -/
def FieldType.text : FieldType → String
  | scalar name => name
  | message name | enum name => "." ++ name

def scalarTypes : List String :=
  ["double", "float", "int32", "int64", "uint32", "uint64", "sint32", "sint64", "fixed32",
    "fixed64", "sfixed32", "sfixed64", "bool", "string", "bytes"]

/-! ## Declarations -/

structure Field where
  /-- The full name. -/
  name : String
  decl : FieldDecl
  type : FieldType
  /-- The message that the field belongs to or extends. -/
  owner : String
  isExtension : Bool := false
  dialect : Dialect
  /-- The options of what surrounds the field, from the inside out. -/
  around : List Options

namespace Field

/-- The value of a feature for a field. -/
def feature (f : Field) (feature : Feature) : String :=
  feature.value f.dialect (f.decl.options :: f.around)

/-- The value of a feature that is set for the field itself. -/
def ownFeature? (f : Field) (feature : Feature) : Option String := feature.setting? f.decl.options

def isRepeated (f : Field) : Bool := f.decl.label == some .repeated

def isMessage (f : Field) : Bool :=
  match f.type with
  | .message _ => true
  | _ => false

/-- Whether the message of a field stands between marks instead of having its length before it. -/
def isDelimited (f : Field) : Bool :=
  f.decl.isGroup || (f.isMessage && !f.decl.isMap && f.feature .messageEncoding == "DELIMITED")

def isRequired (f : Field) : Bool :=
  f.decl.label == some .required || f.feature .fieldPresence == "LEGACY_REQUIRED"

/-- Whether it can be told if a field has been set. -/
def hasPresence (f : Field) : Bool :=
  !f.isRepeated &&
    (f.isExtension || f.isMessage || f.decl.oneof.isSome || f.decl.label == some .optional ||
      ["EXPLICIT", "LEGACY_REQUIRED"].contains (f.feature .fieldPresence))

end Field

structure Message where
  name : String
  item : MessageDef
  fields : List Field
  dialect : Dialect
  around : List Options

structure Enum where
  name : String
  item : EnumDef
  dialect : Dialect
  around : List Options

namespace Enum

/-- Whether an enum has no other values than those it declares. -/
def isClosed (e : Enum) : Bool :=
  Feature.enumType.value e.dialect (e.item.options :: e.around) == "CLOSED"

end Enum

/-! ## Pools -/

structure Pool where
  messages : List Message := []
  enums : List Enum := []
  extensions : List Field := []

namespace Pool

def append (p q : Pool) : Pool :=
  { messages := p.messages ++ q.messages
    enums := p.enums ++ q.enums
    extensions := p.extensions ++ q.extensions }

def message? (p : Pool) (name : String) : Option Message := p.messages.find? (·.name == name)

def enum? (p : Pool) (name : String) : Option Enum := p.enums.find? (·.name == name)

def extension? (p : Pool) (name : String) : Option Field := p.extensions.find? (·.name == name)

end Pool

/-! ## Looking types up -/

/-- The type of a field.  The message of map entries is the type of no field but the map's. -/
def View.fieldType? (v : View) (scopes : List String) (f : FieldDecl) : Option FieldType :=
  let scalar? := match f.type.parts with
    | [name] => if !f.type.isAbsolute && scalarTypes.contains name then some name else none
    | _ => none
  match scalar? with
  | some name => some (.scalar name)
  | none =>
      match v.resolve? true scopes f.type with
      | some { name, kind := .message isEntry } =>
          if isEntry && !f.isMap then none else some (.message name)
      | some { name, kind := .enum } => some (.enum name)
      | _ => none

/-- The full name of a message. -/
def View.message? (v : View) (scopes : List String) (t : TypeName) : Option String :=
  match v.resolve? false scopes t with
  | some { name, kind := .message _ } => some name
  | _ => none

/-- What surrounds a declaration: the options of messages and of the file. -/
def FileDef.around {α : Type} (f : FileDef) (p : Placed α) : List Options :=
  p.outer.map (·.options) ++ [f.options]

/-- A message with the types of its fields. -/
def FileDef.message? (f : FileDef) (v : View) (m : Placed MessageDef) : Option Message := do
  let scopes := m.fullName :: m.scopes
  let around := m.item.options :: f.around m
  let fields ← m.item.fields.mapM fun decl => do
    let type ← v.fieldType? scopes decl
    let field : Field :=
      { name := qualified m.fullName decl.name, decl, type := type, owner := m.fullName
        dialect := f.dialect, around }
    return field
  return { name := m.fullName, item := m.item, fields, dialect := f.dialect, around := f.around m }

/-- Extensions with the message they extend and their types. -/
def FileDef.extensions? (f : FileDef) (v : View) (x : Placed ExtendDef) : Option (List Field) := do
  let owner ← v.message? x.scopes x.item.target
  x.item.fields.mapM fun decl => do
    let type ← v.fieldType? x.scopes decl
    let field : Field :=
      { name := qualified x.scope decl.name, decl, type := type, owner, isExtension := true
        dialect := f.dialect, around := f.around x }
    return field

/-- The declarations of a file, if all types are found. -/
def FileDef.pool? (f : FileDef) (v : View) : Option Pool := do
  let messages ← f.allMessages.mapM (f.message? v)
  let extensions ← f.allExtensions.mapM (f.extensions? v)
  let enums := f.allEnums.map fun e =>
    { name := qualified e.scope e.item.name, item := e.item, dialect := f.dialect,
      around := f.around e }
  return { messages, enums, extensions := extensions.flatten }

/-- Whether the types of all methods are messages. -/
def FileDef.hasMethodTypes (f : FileDef) (v : View) : Bool :=
  f.services.all fun s =>
    let scopes := [qualified f.package s.name]
    s.methods.all fun m => (v.message? scopes m.input).isSome && (v.message? scopes m.output).isSome

end Definition
end ApiPages

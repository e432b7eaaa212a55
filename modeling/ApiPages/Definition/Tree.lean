import ApiPages.Text.Search

/-!
# The tree of a definition file

The declarations of a file as they are written, before any name is looked up.

* `TypeName` is a name that has to be looked up, `Literal` a value that an option is set to;
* `FieldDecl`, `EnumDef`, `MessageDef`, `ServiceDef` and `FileDef` are the declarations;
* `FileDef.allMessages`, `FileDef.allEnums` and `FileDef.allExtensions` are those of a file wherever
  they stand, each with the messages around it.
-/

namespace ApiPages
namespace Definition

/-! ## Names -/

/-- A name inside a scope. -/
def qualified (scope name : String) : String :=
  if scope.isEmpty then name else scope ++ "." ++ name

/-- A name as it is written; a leading point makes it absolute. -/
structure TypeName where
  isAbsolute : Bool := false
  parts : List String
  deriving DecidableEq, Repr

namespace TypeName

/-- The name without its point. -/
def text (t : TypeName) : String := Text.joined "." t.parts

end TypeName

/-- The name of a field in the usual JSON form: underscores make the next letter a capital. -/
def jsonName (name : String) : String :=
  match Text.pieces '_' name with
  | [] => ""
  | first :: rest => first ++ String.join (rest.map String.capitalize)

/-- The message that holds the entries of a map field. -/
def entryName (field : String) : String :=
  (jsonName field).capitalize ++ "Entry"

/-! ## Values -/

/-- The name of a field in the value of a message. -/
inductive LiteralName where
  | field (name : String)
  | extension (name : TypeName)
  /-- A message that any message can be, by the address of its type. -/
  | url (host : String) (name : String)
  deriving DecidableEq, Repr

/-- A value as it is written. -/
inductive Literal where
  | word (name : String)
  | text (value : String)
  | whole (n : Int)
  | decimal (isZero : Bool)
  | list (items : List Literal)
  | message (fields : List (LiteralName × Literal))
  deriving Repr

/-- One part of an option's name: a word, or an extension in parentheses. -/
inductive OptionPart where
  | word (name : String)
  | extension (name : TypeName)
  deriving DecidableEq, Repr

/-- An option that is set. -/
structure OptionUse where
  name : List OptionPart
  value : Literal
  deriving Repr

abbrev Options := List OptionUse

namespace Options

/-- The values that an option of one word is set to. -/
def values (os : Options) (name : String) : List Literal :=
  (os.filter fun o => o.name == [.word name]).map (·.value)

def isSet (os : Options) (name : String) : Bool := !(os.values name).isEmpty

/-- The word that an option of one word is set to. -/
def word? (os : Options) (name : String) : Option String :=
  match os.values name with
  | .word w :: _ => some w
  | _ => none

def isTrue (os : Options) (name : String) : Bool := os.word? name == some "true"

end Options

/-! ## Declarations -/

inductive Label where
  | optional
  | required
  | repeated
  deriving DecidableEq, Repr

structure FieldDecl where
  label : Option Label := none
  type : TypeName
  name : String
  number : Nat
  options : Options := []
  oneof : Option String := none
  /-- The field declares the message of its type in its own place. -/
  isGroup : Bool := false
  /-- The field holds the entries of a map. -/
  isMap : Bool := false
  deriving Repr

/-- A name that is not to be used, in quotes or not. -/
structure ReservedName where
  name : String
  isQuoted : Bool
  deriving DecidableEq, Repr

/-- Numbers from the first to the last, or as far as numbers go. -/
structure Range where
  first : Int
  last? : Option Int
  deriving DecidableEq, Repr

structure ValueDecl where
  name : String
  number : Int
  options : Options := []
  deriving Repr

structure EnumDef where
  name : String
  values : List ValueDecl := []
  options : Options := []
  reserved : List Range := []
  reservedNames : List ReservedName := []
  deriving Repr

structure OneofDecl where
  name : String
  options : Options := []
  deriving Repr

/-- Numbers that are left for extensions. -/
structure ExtensionRange where
  range : Range
  options : Options := []
  deriving Repr

/-- Extensions of a message that is declared elsewhere. -/
structure ExtendDef where
  target : TypeName
  fields : List FieldDecl
  deriving Repr

structure MessageDef where
  name : String
  fields : List FieldDecl := []
  oneofs : List OneofDecl := []
  nested : List MessageDef := []
  enums : List EnumDef := []
  extensions : List ExtendDef := []
  reserved : List Range := []
  reservedNames : List ReservedName := []
  ranges : List ExtensionRange := []
  options : Options := []
  /-- The message holds the entries of a map field. -/
  isEntry : Bool := false

structure MethodDef where
  name : String
  input : TypeName
  output : TypeName
  options : Options := []
  deriving Repr

structure ServiceDef where
  name : String
  methods : List MethodDef := []
  options : Options := []
  deriving Repr

inductive Dialect where
  | proto2
  | proto3
  | edition
  deriving DecidableEq, Repr

structure ImportDecl where
  path : String
  isPublic : Bool := false
  deriving DecidableEq, Repr

structure FileDef where
  dialect : Dialect := .proto2
  package : String := ""
  imports : List ImportDecl := []
  messages : List MessageDef := []
  enums : List EnumDef := []
  services : List ServiceDef := []
  extensions : List ExtendDef := []
  options : Options := []

/-! ## Declarations wherever they stand -/

/-- A declaration with the messages around it, the innermost first. -/
structure Placed (α : Type) where
  item : α
  /-- The full name of what the declaration stands in. -/
  scope : String
  outer : List MessageDef

mutual

/-- A message and those inside of it. -/
def MessageDef.all (scope : String) (outer : List MessageDef) :
    MessageDef → List (Placed MessageDef)
  | .mk name fields oneofs nested enums extensions reserved reservedNames ranges options isEntry =>
      let m :=
        MessageDef.mk name fields oneofs nested enums extensions reserved reservedNames
          ranges options
        isEntry
      { item := m, scope, outer } :: MessageDef.allOf (qualified scope name) (m :: outer) nested

/-- Messages and those inside of them. -/
def MessageDef.allOf (scope : String) (outer : List MessageDef) :
    List MessageDef → List (Placed MessageDef)
  | [] => []
  | m :: rest => MessageDef.all scope outer m ++ MessageDef.allOf scope outer rest

end

namespace Placed

/-- The full name of a message. -/
def fullName (m : Placed MessageDef) : String := qualified m.scope m.item.name

/-- What stands in a message. -/
def inside {α : Type} (m : Placed MessageDef) (items : MessageDef → List α) : List (Placed α) :=
  (items m.item).map fun item => { item, scope := m.fullName, outer := m.item :: m.outer }

end Placed

namespace FileDef

def allMessages (f : FileDef) : List (Placed MessageDef) :=
  MessageDef.allOf f.package [] f.messages

/-- What stands in a file, in messages or outside of them. -/
def allOf {α : Type} (f : FileDef) (top : List α) (items : MessageDef → List α) :
    List (Placed α) :=
  (top.map fun item => { item, scope := f.package, outer := [] }) ++
    f.allMessages.flatMap fun m => m.inside items

def allEnums (f : FileDef) : List (Placed EnumDef) := f.allOf f.enums (·.enums)

def allExtensions (f : FileDef) : List (Placed ExtendDef) := f.allOf f.extensions (·.extensions)

end FileDef
end Definition
end ApiPages

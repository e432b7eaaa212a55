import ApiPages.Definition.Tree

/-!
# Declared names

Every declaration has a full name, and a full name is declared once.  A name that is used is looked
up from the inside out.

* `Symbol` is a declared name, `FileDef.symbols` are those of a file;
* `View` is what is visible in a file;
* `View.resolve?` looks a name up.
-/

namespace ApiPages
namespace Definition

/-! ## Symbols -/

inductive SymbolKind where
  | message (isEntry : Bool)
  | enum
  | service
  | extension
  /-- A field, a oneof, a value or a method. -/
  | leaf
  deriving DecidableEq, Repr

namespace SymbolKind

def isType : SymbolKind → Bool
  | message _ | enum => true
  | _ => false

/-- Whether other names can be declared inside of it. -/
def isOuter : SymbolKind → Bool
  | message _ | enum | service => true
  | _ => false

end SymbolKind

structure Symbol where
  name : String
  kind : SymbolKind
  deriving DecidableEq, Repr

/-- An enum declares its values in the scope around it. -/
def enumSymbols (e : Placed EnumDef) : List Symbol :=
  { name := qualified e.scope e.item.name, kind := .enum } ::
    e.item.values.map fun v => { name := qualified e.scope v.name, kind := .leaf }

def extensionSymbols (x : Placed ExtendDef) : List Symbol :=
  x.item.fields.map fun f => { name := qualified x.scope f.name, kind := .extension }

/-- A message with its fields and oneofs, but without what is declared in messages inside of it. -/
def messageSymbols (m : Placed MessageDef) : List Symbol :=
  { name := m.fullName, kind := .message m.item.isEntry } ::
    (m.item.fields.map (·.name) ++ m.item.oneofs.map (·.name)).map fun n =>
      { name := qualified m.fullName n, kind := .leaf }

def serviceSymbols (scope : String) (s : ServiceDef) : List Symbol :=
  { name := qualified scope s.name, kind := .service } ::
    s.methods.map fun m => { name := qualified (qualified scope s.name) m.name, kind := .leaf }

/-- The names a file declares. -/
def FileDef.symbols (f : FileDef) : List Symbol :=
  f.allMessages.flatMap messageSymbols ++ f.allEnums.flatMap enumSymbols ++
    f.allExtensions.flatMap extensionSymbols ++ f.services.flatMap (serviceSymbols f.package)

/-! ## Looking names up -/

/-- A name with the names around it, the longest first. -/
def enclosing (name : String) : List String :=
  let parts := if name.isEmpty then [] else Text.pieces '.' name
  (List.range parts.length).map fun n => Text.joined "." (parts.take (parts.length - n))

/-- The messages around a declaration, the innermost first. -/
def Placed.scopes {α : Type} (p : Placed α) : List String :=
  (enclosing p.scope).take p.outer.length

/-- What is visible in a file. -/
structure View where
  package : String
  symbols : List Symbol
  /-- The packages of the files that are visible. -/
  packages : List String

/-- What a name means: a declaration, or a space of names that is none. -/
inductive Meaning where
  | symbol (s : Symbol)
  | space
  deriving DecidableEq, Repr

namespace Meaning

def isType : Meaning → Bool
  | symbol s => s.kind.isType
  | space => false

def isOuter : Meaning → Bool
  | symbol s => s.kind.isOuter
  | space => true

def symbol? : Meaning → Option Symbol
  | symbol s => some s
  | space => none

end Meaning

namespace View

/-- What a full name means. -/
def find? (v : View) (name : String) : Option Meaning :=
  match v.symbols.find? (·.name == name) with
  | some s => some (.symbol s)
  | none => if v.packages.any (fun p => (enclosing p).contains name) then some .space else none

/-- What a name means in one scope.  If its first part is found there and can hold names, the rest
has to be found there as well. -/
def inScope? (v : View) (parts : List String) (scope : String) : Option Meaning :=
  match v.find? (qualified scope (parts.headD "")) with
  | none => none
  | some m =>
      if parts.length == 1 then some m
      else if m.isOuter then
        some ((v.find? (qualified scope (Text.joined "." parts))).getD .space)
      else none

/-- What a name means outside of messages: in the package, in those around it, or in full. -/
def inFile? (v : View) (parts : List String) : Option Meaning :=
  ((enclosing v.package).findSome? (v.inScope? parts)).or (v.find? (Text.joined "." parts))

/-- The declaration that a name stands for inside of messages or services, the innermost first.
Where only types are looked for, a single word passes over other declarations. -/
def resolve? (v : View) (onlyTypes : Bool) (scopes : List String) (t : TypeName) : Option Symbol :=
  if t.isAbsolute then (v.find? t.text).bind Meaning.symbol?
  else
    let decides (m : Meaning) : Bool := !onlyTypes || m.isType || 1 < t.parts.length
    let found :=
      (scopes.map (v.inScope? t.parts) ++ [v.inFile? t.parts]).findSome? (·.filter decides)
    found.bind Meaning.symbol?

end View
end Definition
end ApiPages

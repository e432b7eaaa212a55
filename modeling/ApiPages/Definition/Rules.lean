import ApiPages.Definition.Assignment

/-!
# Rules for declarations

What a declaration has to keep once the types of fields are known.

* `Field.keepsRules` and `Field.keepsExtensionRules` are the rules for fields and extensions;
* `Message.keepsRules` and `Enum.keepsRules` are those for messages and enums, most of all that
  their names can be told apart in JSON;
* `FileDef.setsOptions` checks the options of all declarations of a file.
-/

namespace ApiPages
namespace Definition

/-! ## Names in JSON -/

/-- The name a field has in JSON because an option says so. -/
def FieldDecl.customName? (f : FieldDecl) : Option String :=
  match f.options.values "json_name" with
  | .text s :: _ => some s
  | _ => none

/-- Whether the names of fields can be told apart.  The usual names have to differ if `isStrict`;
the names that options give always have to, from each other and from the usual ones. -/
def haveJsonNames (isStrict : Bool) (fs : List FieldDecl) : Bool :=
  let usual := fs.map fun f => jsonName f.name
  let areApart (f g : FieldDecl) : Bool :=
    (f.customName?.isNone && g.customName?.isNone) ||
      f.customName?.getD (jsonName f.name) != g.customName?.getD (jsonName g.name)
  (!isStrict || decide usual.Nodup) && decide (fs.Pairwise fun f g => areApart f g = true)

/-- A name without one before it, where neither case nor underscores count.  What would leave
nothing is left as it is. -/
def withoutPrefix (whole : List Char) : List Char → List Char → List Char
  | [], _ => whole
  | c :: cs, start =>
      if c == '_' then withoutPrefix whole cs start
      else
        match start.dropWhile (· == '_') with
        | [] => c :: cs
        | d :: ds => if c.toLower == d.toLower then withoutPrefix whole cs ds else whole

/-- A name with its words capitalised and joined. -/
def capitalized (cs : List Char) : String :=
  String.join ((cs.splitOn '_').map fun w => (String.ofList w).toLower.capitalize)

/-- The name of a value in JSON: without the name of the enum, in words that begin with capitals. -/
def valueName (enum value : String) : String :=
  capitalized (withoutPrefix value.toList value.toList enum.toList)

/-! ## Fields -/

namespace Field

def isText (f : Field) : Bool := f.type == .scalar "string" || f.type == .scalar "bytes"

/-- The default value of a field has to be of its type. -/
def keepsDefault (p : Pool) (f : Field) : Bool :=
  (f.decl.options.values "default").all fun v =>
    f.hasPresence &&
      match f.type with
      | .scalar type => v.fitsScalar type false
      | .enum name => (p.enum? name).any fun e => (e.number? false v).isSome
      | .message _ => false

/-- The name of a field in JSON is a text, but not one in brackets; extensions keep theirs. -/
def keepsJsonName (f : Field) : Bool :=
  (f.decl.options.values "json_name").all fun v =>
    match v with
    | .text s =>
        (!f.isExtension || s.isEmpty || s == jsonName f.decl.name) &&
          !(Text.startsWith s "[" && Text.endsWith s "]")
    | _ => false

/-- Fields of which it cannot be told whether they are set need an enum that begins with zero. -/
def keepsEnum (p : Pool) (f : Field) : Bool :=
  match f.type with
  | .enum name => f.isRepeated || f.hasPresence || (p.enum? name).any fun e => !e.isClosed
  | _ => true

/-- Only repeated numbers can be packed. -/
def keepsPacked (f : Field) : Bool :=
  !(f.dialect == .edition && f.decl.options.isSet "packed") &&
    (!f.decl.options.isTrue "packed" || (f.isRepeated && !f.isText && !f.isMessage))

def keepsTextType (f : Field) : Bool :=
  f.dialect != .edition ||
    match f.decl.options.word? "ctype" with
    | none => true
    | some w => f.isText && !(f.isExtension && w == "CORD")

/-- Only messages can be read late. -/
def keepsLazy (f : Field) : Bool :=
  !(f.decl.options.isTrue "lazy" || f.decl.options.isTrue "unverified_lazy") ||
    (f.isMessage && !f.isDelimited)

/-- Only whole numbers of 64 bits can be written otherwise. -/
def keepsNumberType (f : Field) : Bool :=
  (f.decl.options.word? "jstype").all fun w =>
    w == "JS_NORMAL" ||
      ["int64", "uint64", "sint64", "fixed64", "sfixed64"].any fun t => f.type == .scalar t

/-- The text that keys or values of a map can be. -/
def holdsText (p : Pool) (f : Field) : Bool :=
  match f.type with
  | .message name =>
      f.decl.isMap && (p.message? name).any fun m => m.fields.any (·.type == .scalar "string")
  | t => t == .scalar "string"

/-- A feature can be set where it makes a difference. -/
def keepsFeatures (p : Pool) (f : Field) : Bool :=
  (f.ownFeature? .fieldPresence).all (fun w =>
    f.decl.oneof.isNone && !f.isRepeated && !f.isExtension && !(f.isMessage && w == "IMPLICIT")) &&
  (f.ownFeature? .repeatedFieldEncoding).all (fun w =>
    f.isRepeated && !((f.isText || f.isMessage) && w == "PACKED")) &&
  (f.ownFeature? .textValidation).all (fun _ => f.holdsText p) &&
  (f.ownFeature? .messageEncoding).all (fun _ => f.isMessage && !f.decl.isMap)

def keepsRules (p : Pool) (f : Field) : Bool :=
  f.keepsDefault p && f.keepsJsonName && f.keepsEnum p && f.keepsPacked && f.keepsTextType &&
    f.keepsLazy && f.keepsNumberType

end Field

/-! ## Declared extensions -/

/-- What the options of a range say about an extension with a number. -/
structure Declaration where
  number? : Option Int
  name? : Option String
  type? : Option String
  isReserved : Bool
  isRepeated : Bool
  deriving DecidableEq, Repr

def Declaration.ofLiteral (v : Literal) : Declaration :=
  { number? := (v.field? "number").bind Literal.whole?
    name? := (v.field? "full_name").bind Literal.text?
    type? := (v.field? "type").bind Literal.text?
    isReserved := (v.field? "reserved").any Literal.isTrue
    isRepeated := (v.field? "repeated").any Literal.isTrue }

namespace ExtensionRange

def declarations (r : ExtensionRange) : List Declaration :=
  (r.options.values "declaration").map Declaration.ofLiteral

/-- Whether extensions of a range have to be declared. -/
def isVerified (r : ExtensionRange) : Bool :=
  !r.declarations.isEmpty || r.options.word? "verification" == some "DECLARATION"

end ExtensionRange

/-- Whether a text is the name of a declaration in full, after a point. -/
def isFullName (s : String) : Bool :=
  match s.toList with
  | '.' :: rest => (rest.splitOn '.').all fun part => isIdentifier (String.ofList part)
  | _ => false

/-- Whether a declaration is complete and can be kept. -/
def Declaration.isWellFormed (d : Declaration) : Bool :=
  (d.isReserved || (d.name?.isSome && d.type?.isSome)) && d.name?.isSome == d.type?.isSome &&
    d.name?.all isFullName && d.type?.all fun t => scalarTypes.contains t || isFullName t

/-- Whether the declarations of a range are for numbers in it, each for another one. -/
def ExtensionRange.keepsRules (top : Int) (r : ExtensionRange) : Bool :=
  r.declarations.isEmpty ||
    (r.options.word? "verification" != some "UNVERIFIED" &&
      r.declarations.all (fun d =>
        d.isWellFormed && d.number?.any fun n => r.range.contains top n) &&
      decide (r.declarations.map (·.number?)).Nodup)

namespace Field

/-- Whether an extension is the one that is declared for its number. -/
def isDeclared (r : ExtensionRange) (f : Field) : Bool :=
  !r.isVerified ||
    r.declarations.any fun d =>
      d.number? == some (f.decl.number : Int) && !d.isReserved && d.name? == some ("." ++ f.name) &&
        d.type? == some f.type.text && d.isRepeated == f.isRepeated

/-- The messages that can be extended in the dialect that has no extensions otherwise. -/
def optionMessages : List String :=
  ["FileOptions", "MessageOptions", "FieldOptions", "OneofOptions", "EnumOptions",
    "EnumValueOptions",
    "ServiceOptions", "MethodOptions", "ExtensionRangeOptions"].map ("google.protobuf." ++ ·)

/-- Whether a file is for programs that know little about messages. -/
def isLite (os : Options) : Bool := os.word? "optimize_for" == some "LITE_RUNTIME"

/-- An extension has a number that its message leaves for it. -/
def keepsExtensionRules (p : Pool) (f : Field) : Bool :=
  match p.message? f.owner with
  | none => false
  | some m =>
      let isLiteFile (around : List Options) : Bool := around.getLast?.any isLite
      m.item.ranges.any (fun r => r.range.contains m.item.top f.decl.number && f.isDeclared r) &&
        (f.dialect != .proto3 || optionMessages.contains f.owner) &&
        (if m.item.isSet then f.isMessage && !f.isDelimited && !f.isRepeated
          else f.decl.number ≤ maxNumber) &&
        (!isLiteFile f.around || isLiteFile m.around)

end Field

/-! ## Messages and enums -/

namespace Message

def keepsRules (p : Pool) (m : Message) : Bool :=
  let isStrict := Feature.jsonFormat.value m.dialect (m.item.options :: m.around) == "ALLOW"
  haveJsonNames isStrict m.item.fields && m.item.ranges.all (·.keepsRules m.item.top) &&
    m.fields.all (fun f => if m.item.isEntry then f.keepsEnum p else f.keepsRules p) &&
    (m.dialect != .edition || m.item.isEntry || m.fields.all (·.keepsFeatures p))

end Message

namespace Enum

/-- Whether values with different numbers have different names in JSON. -/
def hasValueNames (e : Enum) : Bool :=
  decide ((e.item.values.map fun v => (valueName e.item.name v.name, v.number)).Pairwise
    fun a b => a.1 ≠ b.1 ∨ a.2 = b.2)

def keepsRules (e : Enum) : Bool :=
  (e.isClosed || e.item.values.head?.any (·.number == 0)) &&
    (Feature.jsonFormat.value e.dialect (e.item.options :: e.around) != "ALLOW" || e.hasValueNames)

end Enum

/-! ## Files -/

/-- Options that say more about a field than its options message does. -/
def FieldDecl.properOptions (f : FieldDecl) : Options :=
  f.options.filter fun o => o.name != [.word "default"] && o.name != [.word "json_name"]

/-- Whether the options of all declarations of a file can be set. -/
def FileDef.setsOptions (f : FileDef) (p : Pool) (v : View) : Bool :=
  let accepts (scopes : List String) (target type : String) (os : Options) : Bool :=
    ({ pool := p, view := v, scopes, target : Setter }).accepts type os
  let acceptsField (scopes : List String) (d : FieldDecl) : Bool :=
    accepts scopes "FIELD" "FieldOptions" d.properOptions
  accepts [] "FILE" "FileOptions" f.options &&
  f.allMessages.all (fun m =>
    let inner := m.fullName :: m.scopes
    accepts m.scopes "MESSAGE" "MessageOptions" m.item.options &&
      m.item.ranges.all (fun r =>
        accepts inner "EXTENSION_RANGE" "ExtensionRangeOptions" r.options) &&
      m.item.oneofs.all (fun o => accepts inner "ONEOF" "OneofOptions" o.options) &&
      (m.item.isEntry || m.item.fields.all (acceptsField inner))) &&
  f.allExtensions.all (fun x => x.item.fields.all (acceptsField x.scopes)) &&
  f.allEnums.all (fun e =>
    accepts e.scopes "ENUM" "EnumOptions" e.item.options &&
      e.item.values.all fun v => accepts e.scopes "ENUM_ENTRY" "EnumValueOptions" v.options) &&
  f.services.all fun s =>
    accepts [] "SERVICE" "ServiceOptions" s.options &&
      s.methods.all fun m =>
        accepts [qualified f.package s.name] "METHOD" "MethodOptions" m.options

/-- Rules for what is set for a whole file. -/
def FileDef.keepsRules (f : FileDef) (imported : List Options) : Bool :=
  (Field.isLite f.options || !imported.any Field.isLite) &&
    (f.dialect != .edition ||
      (Feature.fieldPresence.setting? f.options != some "LEGACY_REQUIRED" &&
        !f.options.isSet "java_string_check_utf8"))

/-- Rules for the declarations of a file, given those of all files. -/
def Pool.keepsRules (own all : Pool) : Bool :=
  own.messages.all (·.keepsRules all) && own.enums.all (·.keepsRules) &&
    own.extensions.all fun f =>
      f.keepsRules all && f.keepsExtensionRules all &&
        (f.dialect != .edition || f.keepsFeatures all)

end Definition
end ApiPages

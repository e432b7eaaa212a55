import ApiPages.Definition.Token
import ApiPages.Definition.Tree

/-!
# Reading definition files

Every reader takes tokens from the left.  A word that begins a declaration is taken for that, even
where a type could stand.

* `Read.literal` reads a value, `Read.optionUse` an option that is set to one;
* `Read.field`, `Read.enum`, `Read.messageBody` and `Read.service` read declarations;
* `Definition.parse?` reads a whole file.
-/

namespace ApiPages
namespace Definition

abbrev Read := StateT (List Token) Option

namespace Read

/-! ## Small readers -/

def fail {α : Type} : Read α := fun _ => none

/-- The next token, if there is one. -/
def peek : Read (Option Token) := do return (← get).head?

def pass : Read Unit := modify List.tail

/-- A bound on the number of steps that can follow. -/
def fuel : Read Nat := do return (← get).length + 1

/-- Passes a token if it comes next. -/
def accepts (t : Token) : Read Bool := do
  if (← peek) == some t then
    pass
    return true
  else return false

def expect (t : Token) : Read Unit := do
  if !(← accepts t) then fail

def mark (c : Char) : Read Unit := expect (.mark c)

def keyword (w : String) : Read Unit := expect (.word w)

def word : Read String := do
  match ← peek with
  | some (.word w) =>
      pass
      return w
  | _ => fail

def whole : Read Nat := do
  match ← peek with
  | some (.whole n) =>
      pass
      return n
  | _ => fail

/-- Items between commas. -/
def separated {α : Type} (fuel : Nat) (item : Read α) : Read (List α) :=
  match fuel with
  | 0 => fail
  | fuel + 1 => do
      let a ← item
      if ← accepts (.mark ',') then return a :: (← separated fuel item) else return [a]

/-- Steps up to a closing brace. -/
def body {α : Type} (fuel : Nat) (step : α → Read α) (a : α) : Read α :=
  match fuel with
  | 0 => fail
  | fuel + 1 => do
      if ← accepts (.mark '\x7d') then return a else body fuel step (← step a)

/-- Adjacent strings, which make one. -/
def bytes (fuel : Nat) : Read (List UInt8) :=
  match fuel with
  | 0 => return []
  | fuel + 1 => do
      match ← peek with
      | some (.text bs) =>
          pass
          return bs ++ (← bytes fuel)
      | _ => return []

def string : Read String := do
  match ← peek with
  | some (.text _) => return Utf8.text (← bytes (← fuel))
  | _ => fail

/-! ## Names -/

/-- Words between points. -/
def dotted (fuel : Nat) : Read (List String) :=
  match fuel with
  | 0 => fail
  | fuel + 1 => do
      let w ← word
      if ← accepts (.mark '.') then return w :: (← dotted fuel) else return [w]

def name : Read String := do return Text.joined "." (← dotted (← fuel))

def typeName : Read TypeName := do
  let isAbsolute ← accepts (.mark '.')
  return { isAbsolute, parts := ← dotted (← fuel) }

/-! ## Values -/

/-- What a minus sign makes of the value after it.  Inside a message, infinity has more names. -/
def negated (inMessage : Bool) : Read Literal := do
  match ← peek with
  | some (.whole n) =>
      pass
      return if n ≤ 0x8000000000000000 then .whole (-n) else .decimal false
  | some (.decimal isZero) =>
      pass
      return .decimal isZero
  | some (.word w) =>
      pass
      let isSpecial :=
        if inMessage then ["inf", "infinity", "nan"].contains w.toLower
        else w == "inf" || w == "nan"
      if isSpecial then return .decimal false else fail
  | _ => fail

/-- A value that is neither a message nor a list. -/
def scalar (inMessage : Bool) : Read Literal := do
  match ← peek with
  | some (.word w) =>
      pass
      return .word w
  | some (.whole n) =>
      pass
      return .whole n
  | some (.decimal isZero) =>
      pass
      return .decimal isZero
  | some (.text _) => return .text (← string)
  | some (.mark '-') =>
      pass
      negated inMessage
  | _ => fail

/-- The name of a field in a message: a word, or the name of an extension or of a type in
brackets. -/
def literalName : Read LiteralName := do
  if ← accepts (.mark '[') then
    let first ← dotted (← fuel)
    if ← accepts (.mark '/') then
      let second ← name
      mark ']'
      return .url (Text.joined "." first) second
    else
      mark ']'
      return .extension { parts := first }
  else return .field (← word)

mutual

/-- A message after its opening bracket. -/
def literalFields (fuel : Nat) (close : Char) : Read (List (LiteralName × Literal)) :=
  match fuel with
  | 0 => fail
  | fuel + 1 => do
      if ← accepts (.mark close) then return []
      else
        let n ← literalName
        let v ← if ← accepts (.mark ':') then literal fuel true else literal fuel false
        if !(← accepts (.mark ',')) then let _ ← accepts (.mark ';')
        return (n, v) :: (← literalFields fuel close)

/-- A value inside a message.  `mayBeScalar` is false where only messages can stand. -/
def literal (fuel : Nat) (mayBeScalar : Bool) : Read Literal :=
  match fuel with
  | 0 => fail
  | fuel + 1 => do
      if ← accepts (.mark '[') then
        if ← accepts (.mark ']') then return .list []
        else return .list (← literalItems fuel mayBeScalar)
      else literalItem fuel mayBeScalar

/-- The items of a list, which holds no lists, up to its closing bracket. -/
def literalItems (fuel : Nat) (mayBeScalar : Bool) : Read (List Literal) :=
  match fuel with
  | 0 => fail
  | fuel + 1 => do
      let v ← literalItem fuel mayBeScalar
      if ← accepts (.mark ',') then return v :: (← literalItems fuel mayBeScalar)
      else
        mark ']'
        return [v]

def literalItem (fuel : Nat) (mayBeScalar : Bool) : Read Literal :=
  match fuel with
  | 0 => fail
  | fuel + 1 => do
      if ← accepts (.mark '\x7b') then return .message (← literalFields fuel '\x7d')
      else if ← accepts (.mark '<') then return .message (← literalFields fuel '>')
      else if mayBeScalar then scalar true
      else fail

end

/-- The value of an option. -/
def optionValue : Read Literal := do
  if ← accepts (.mark '\x7b') then return .message (← literalFields (4 * (← fuel)) '\x7d')
  else scalar false

/-! ## Options -/

def optionPart : Read OptionPart := do
  if ← accepts (.mark '(') then
    let t ← typeName
    mark ')'
    return .extension t
  else return .word (← word)

def optionName (fuel : Nat) : Read (List OptionPart) :=
  match fuel with
  | 0 => fail
  | fuel + 1 => do
      let p ← optionPart
      if ← accepts (.mark '.') then return p :: (← optionName fuel) else return [p]

def optionUse : Read OptionUse := do
  let name ← optionName (← fuel)
  mark '='
  return { name := name, value := ← optionValue }

/-- An option statement after its keyword. -/
def optionStatement : Read OptionUse := do
  let o ← optionUse
  mark ';'
  return o

/-- Options in brackets, if there are any. -/
def options : Read Options := do
  if ← accepts (.mark '[') then
    let os ← separated (← fuel) optionUse
    mark ']'
    return os
  else return []

/-! ## Fields -/

def label? : Read (Option Label) := do
  if ← accepts (.word "optional") then return some .optional
  else if ← accepts (.word "required") then return some .required
  else if ← accepts (.word "repeated") then return some .repeated
  else return none

/-- The name and the number of a field, and its options. -/
def numbered (label : Option Label) (type : TypeName) : Read FieldDecl := do
  let name ← word
  mark '='
  let number ← whole
  return { label, type := type, name, number, options := ← options }

/-- The fields of the message that holds the entries of a map. -/
def entry (field : FieldDecl) (key value : TypeName) : MessageDef :=
  let features := field.options.filter fun o => o.name.head? == some (.word "features")
  let part (type : TypeName) (name : String) (number : Nat) : FieldDecl :=
    { type := type, name, number, options := features }
  { name := entryName field.name, fields := [part key "key" 1, part value "value" 2],
    isEntry := true }

/-- The scalar types that can be keys of a map. -/
def keyTypes : List String :=
  ["int32", "int64", "uint32", "uint64", "sint32", "sint64", "fixed32", "fixed64", "sfixed32",
    "sfixed64", "bool", "string"]

/-- A map field after its keyword, and the message of its entries. -/
def mapField : Read (FieldDecl × MessageDef) := do
  mark '<'
  let key ← word
  if !keyTypes.contains key then fail
  else
    mark ','
    let value ← typeName
    mark '>'
    -- the type is that of the entries, whose name follows from the name of the field
    let f ← numbered (some .repeated) { parts := [] }
    mark ';'
    return ({ f with type := { parts := [entryName f.name] }, isMap := true },
      entry f { parts := [key] } value)

/-! ## Numbers and names that are kept back -/

def range (number : Read Int) : Read Range := do
  let first ← number
  if ← accepts (.word "to") then
    if ← accepts (.word "max") then return { first, last? := none }
    else return { first, last? := some (← number) }
  else return { first, last? := some first }

def natural : Read Int := do return (← whole : Nat)

def integer : Read Int := do
  if ← accepts (.mark '-') then return -((← whole : Nat) : Int) else natural

/-- A statement of reserved numbers or names, after its keyword. -/
def reserved (number : Read Int) : Read (List Range × List ReservedName) := do
  let result ←
    match ← peek with
    | some (.text _) =>
        let names ← separated (← fuel) string
        pure ([], names.map fun name => { name := name, isQuoted := true })
    | some (.word _) =>
        let names ← separated (← fuel) word
        pure ([], names.map fun name => { name := name, isQuoted := false })
    | _ => pure (← separated (← fuel) (range number), [])
  mark ';'
  return result

/-- A statement of numbers for extensions, after its keyword. -/
def extensionRanges : Read (List ExtensionRange) := do
  let ranges ← separated (← fuel) (range natural)
  let os ← options
  mark ';'
  return ranges.map fun range => { range, options := os }

/-! ## Enums -/

def enumStep (e : EnumDef) : Read EnumDef := do
  if ← accepts (.mark ';') then return e
  else if ← accepts (.word "option") then
    return { e with options := e.options ++ [← optionStatement] }
  else if ← accepts (.word "reserved") then
    let (ranges, names) ← reserved integer
    return { e with reserved := e.reserved ++ ranges, reservedNames := e.reservedNames ++ names }
  else
    let name ← word
    mark '='
    let number ← integer
    let os ← options
    mark ';'
    return { e with values := e.values ++ [{ name := name, number, options := os }] }

/-- An enum after its keyword. -/
def enum : Read EnumDef := do
  let name ← word
  mark '\x7b'
  body (← fuel) enumStep { name := name }

/-! ## Messages -/

/-- What a declaration adds to what surrounds it. -/
structure Parts where
  fields : List FieldDecl := []
  nested : List MessageDef := []

def Parts.append (p q : Parts) : Parts :=
  { fields := p.fields ++ q.fields, nested := p.nested ++ q.nested }

/-- A group after its keyword: a field that declares the message of its type and has its name in
lower case.  `read` reads the body of the message. -/
def group (read : MessageDef → Read MessageDef) (label : Option Label) : Read Parts := do
  let f ← numbered label { parts := [] }
  mark '\x7b'
  let m ← read { name := f.name }
  return {
    fields := [{ f with type := { parts := [f.name] }, name := f.name.toLower, isGroup := true }]
    nested := [m] }

/-- A field or a group. -/
def field (read : MessageDef → Read MessageDef) : Read Parts := do
  let label ← label?
  if ← accepts (.word "group") then group read label
  else
    let f ← numbered label (← typeName)
    mark ';'
    return { fields := [f] }

/-- The extensions of a message, after the keyword. -/
def extend (read : MessageDef → Read MessageDef) : Read (ExtendDef × List MessageDef) := do
  let target ← typeName
  mark '\x7b'
  let p ← body (← fuel) (fun (p : Parts) => do return p.append (← field read)) {}
  if p.fields.isEmpty then fail else return ({ target, fields := p.fields }, p.nested)

/-- The members of a oneof, after the keyword.  They have no labels. -/
def oneof (read : MessageDef → Read MessageDef) : Read (OneofDecl × Parts) := do
  let name ← word
  mark '\x7b'
  let step (s : Options × Parts) : Read (Options × Parts) := do
    if ← accepts (.word "option") then return (s.1 ++ [← optionStatement], s.2)
    else
      let p ← field read
      if p.fields.any (·.label.isSome) then fail else return (s.1, s.2.append p)
  let (os, p) ← body (← fuel) step ([], {})
  if p.fields.isEmpty then fail
  else
    let fields := p.fields.map fun f => { f with oneof := some name }
    return ({ name := name, options := os }, { p with fields })

/-- The body of a message after its opening brace. -/
def messageBody (fuel : Nat) (m : MessageDef) : Read MessageDef :=
  match fuel with
  | 0 => fail
  | fuel + 1 => do
      let read (m : MessageDef) : Read MessageDef := messageBody fuel m
      let add (m : MessageDef) (p : Parts) : MessageDef :=
        { m with fields := m.fields ++ p.fields, nested := m.nested ++ p.nested }
      if ← accepts (.mark '\x7d') then return m
      else if ← accepts (.mark ';') then read m
      else if ← accepts (.word "message") then
        let name ← word
        mark '\x7b'
        let inner ← read { name := name }
        read { m with nested := m.nested ++ [inner] }
      else if ← accepts (.word "enum") then read { m with enums := m.enums ++ [← enum] }
      else if ← accepts (.word "oneof") then
        let (o, p) ← oneof read
        read (add { m with oneofs := m.oneofs ++ [o] } p)
      else if ← accepts (.word "option") then
        read { m with options := m.options ++ [← optionStatement] }
      else if ← accepts (.word "reserved") then
        let (ranges, names) ← reserved natural
        read {
          m with
          reserved := m.reserved ++ ranges
          reservedNames := m.reservedNames ++ names }
      else if ← accepts (.word "extensions") then
        read { m with ranges := m.ranges ++ (← extensionRanges) }
      else if ← accepts (.word "extend") then
        let (x, nested) ← extend read
        read { m with extensions := m.extensions ++ [x], nested := m.nested ++ nested }
      -- without the bracket the word is a type of that name
      else if (← get).take 2 == [.word "map", .mark '<'] then
        pass
        let (f, e) ← mapField
        read (add m { fields := [f], nested := [e] })
      else read (add m (← field read))

/-! ## Services -/

/-- The type in the parentheses of a method, which may be streamed. -/
def payload : Read TypeName := do
  mark '('
  let _ ← accepts (.word "stream")
  let t ← typeName
  mark ')'
  return t

def methodStep (os : Options) : Read Options := do
  if ← accepts (.mark ';') then return os
  else
    keyword "option"
    return os ++ [← optionStatement]

/-- A method after its keyword. -/
def method : Read MethodDef := do
  let name ← word
  let input ← payload
  keyword "returns"
  let output ← payload
  if ← accepts (.mark ';') then return { name := name, input, output }
  else
    mark '\x7b'
    return { name := name, input, output, options := ← body (← fuel) methodStep [] }

def serviceStep (s : ServiceDef) : Read ServiceDef := do
  if ← accepts (.mark ';') then return s
  else if ← accepts (.word "rpc") then return { s with methods := s.methods ++ [← method] }
  else
    keyword "option"
    return { s with options := s.options ++ [← optionStatement] }

def service : Read ServiceDef := do
  let name ← word
  mark '\x7b'
  body (← fuel) serviceStep { name := name }

/-! ## Files -/

/-- The statement of the dialect at the beginning of a file, if there is one. -/
def dialect : Read Dialect := do
  if ← accepts (.word "syntax") then
    mark '='
    let name ← string
    mark ';'
    if name == "proto2" then return .proto2
    else if name == "proto3" then return .proto3
    else fail
  else if ← accepts (.word "edition") then
    mark '='
    let name ← string
    mark ';'
    if name == "2023" then return .edition else fail
  else return .proto2

/-- An import after its keyword. -/
def importDecl : Read ImportDecl := do
  let isPublic ← accepts (.word "public")
  if !isPublic then let _ ← accepts (.word "weak")
  let path ← string
  mark ';'
  return { path, isPublic }

/-- Whether a package name is short enough. -/
def isPackageName (name : String) : Bool :=
  name.length < 512 && name.toList.count '.' ≤ 100

def fileBody (fuel : Nat) (hasPackage : Bool) (f : FileDef) : Read FileDef :=
  match fuel with
  | 0 => fail
  | fuel + 1 => do
      let steps ← Read.fuel
      let next := fileBody fuel hasPackage
      if (← peek).isNone then return f
      else if ← accepts (.mark ';') then next f
      else if ← accepts (.word "package") then
        let package ← name
        mark ';'
        if hasPackage || !isPackageName package then fail
        else fileBody fuel true { f with package }
      else if ← accepts (.word "import") then
        next { f with imports := f.imports ++ [← importDecl] }
      else if ← accepts (.word "option") then
        next { f with options := f.options ++ [← optionStatement] }
      else if ← accepts (.word "message") then
        let name ← word
        mark '\x7b'
        let m ← messageBody steps { name := name }
        next { f with messages := f.messages ++ [m] }
      else if ← accepts (.word "enum") then next { f with enums := f.enums ++ [← enum] }
      else if ← accepts (.word "service") then next { f with services := f.services ++ [← service] }
      else if ← accepts (.word "extend") then
        let (x, nested) ← extend (messageBody steps)
        next { f with extensions := f.extensions ++ [x], messages := f.messages ++ nested }
      else fail

def file : Read FileDef := do
  let dialect ← dialect
  fileBody (← fuel) false { dialect }

end Read

/-- Reads a file. -/
def parse? (text : String) : Option FileDef := do
  let ts ← tokens? text
  let (f, _) ← Read.file.run ts
  return f

end Definition
end ApiPages

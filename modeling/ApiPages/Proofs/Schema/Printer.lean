import ApiPages.Schema.Recognize

/-!
# Writing schemas

The canonical text of a schema: the declarations first, then services, messages and enums, one
statement a line, members indented by two spaces and every item below its comment lines.

* `Schema.lines` are the lines of the text, `Schema.print` is the text;
* `Schema.Printable` are the schemas whose parts can be written down: names are words, types are
  names or maps of names, numbers are digits, quoted texts and comment lines need no escapes.
-/

namespace ApiPages

open Recognize (Block)

/-! ## Statements -/

namespace Printer

def quoted (text : String) : List Char :=
  '"' :: text.toList ++ ['"']

def dialect (name : String) : List Char :=
  "syntax = ".toList ++ quoted name ++ [';']

def package (name : String) : List Char :=
  "package ".toList ++ name.toList ++ [';']

def importOf (path : String) : List Char :=
  "import ".toList ++ quoted path ++ [';']

def header (block : Block) (name : String) : List Char :=
  block.keyword.toList ++ ' ' :: name.toList ++ [' ', '\x7b']

def closing : List Char :=
  ['\x7d']

/-- What stands between the parentheses of a call. -/
def payload (streamed : Bool) (type : String) : List Char :=
  (if streamed then "stream ".toList else []) ++ type.toList

def rpc (r : Rpc) : List Char :=
  "rpc ".toList ++ (r.name.toList ++ ('(' :: (payload r.clientStreaming r.request ++
    (") returns (".toList ++ (payload r.serverStreaming r.response ++ [')', ';'])))))

def labels (f : MessageField) : List Char :=
  (if f.isRepeated then "repeated ".toList else []) ++
    (if f.isOptional then "optional ".toList else [])

/-- A name with its number, to the end of the statement. -/
def numbered (name number : String) : List Char :=
  name.toList ++ (" = ".toList ++ (number.toList ++ [';']))

def field (f : MessageField) : List Char :=
  labels f ++ (f.type.toList ++ ' ' :: numbered f.name f.number)

def value (v : EnumValue) : List Char :=
  numbered v.name v.number

/-! ## Lines -/

def comment (line : String) : List Char :=
  "// ".toList ++ line.toList

/-- A statement below its comment lines. -/
def documented (indent : List Char) (docs : List String) (stmt : List Char) : List (List Char) :=
  docs.map (fun d => indent ++ comment d) ++ [indent ++ stmt]

/-- The lines of the members of an item. -/
def members {α : Type} (docs : α → List String) (stmt : α → List Char) (ms : List α) :
    List (List Char) :=
  ms.flatMap fun m => documented "  ".toList (docs m) (stmt m)

def service (s : Service) : List (List Char) :=
  documented [] s.docs (header .service s.name) ++ members Rpc.docs rpc s.rpcs ++ [closing]

def message (m : Message) : List (List Char) :=
  documented [] m.docs (header .message m.name) ++ members MessageField.docs field m.fields ++
    [closing]

def enum (e : EnumDecl) : List (List Char) :=
  documented [] e.docs (header .enum e.name) ++ members EnumValue.docs value e.values ++ [closing]

end Printer

namespace Schema

/-- The declarations of a schema; what it does not name is left out. -/
def declarations (s : Schema) : List (List Char) :=
  (if s.dialect = "" then [] else [Printer.dialect s.dialect]) ++
    (if s.package = "" then [] else [Printer.package s.package]) ++ s.imports.map Printer.importOf

def lines (s : Schema) : List (List Char) :=
  s.declarations ++ s.services.flatMap Printer.service ++ s.messages.flatMap Printer.message ++
    s.enums.flatMap Printer.enum

/-- The canonical text of a schema. -/
def print (s : Schema) : String :=
  String.ofList (s.lines.flatMap fun line => line ++ ['\n'])

end Schema

/-! ## What can be written down -/

namespace Printer

def IsWord (s : String) : Prop :=
  s ≠ "" ∧ ∀ c ∈ s.toList, Text.isWord c = true

/-- Words joined by dots. -/
def IsName (s : String) : Prop :=
  s ≠ "" ∧ ∀ c ∈ s.toList, Recognize.isNamePart c = true

def IsDigits (s : String) : Prop :=
  s ≠ "" ∧ ∀ c ∈ s.toList, c.isDigit = true

def IsNumber (s : String) : Prop :=
  IsDigits s ∨ ∃ digits, IsDigits digits ∧ s = "-" ++ digits

def IsQuotable (s : String) : Prop :=
  s ≠ "" ∧ ∀ c ∈ s.toList, c ≠ '"' ∧ c ≠ '\\' ∧ c ≠ '\n'

def IsComment (s : String) : Prop :=
  Text.trim s.toList = s.toList ∧ '\n' ∉ s.toList

instance (s : String) : Decidable (IsWord s) :=
  decidable_of_iff (s ≠ "" ∧ s.toList.all Text.isWord = true) (by simp [IsWord])

instance (s : String) : Decidable (IsName s) :=
  decidable_of_iff (s ≠ "" ∧ s.toList.all Recognize.isNamePart = true) (by simp [IsName])

instance (s : String) : Decidable (IsDigits s) :=
  decidable_of_iff (s ≠ "" ∧ s.toList.all Char.isDigit = true) (by simp [IsDigits])

instance (s : String) : Decidable (IsQuotable s) :=
  decidable_of_iff (s ≠ "" ∧ s.toList.all (fun c => c != '"' && c != '\\' && c != '\n') = true)
    (by simp [IsQuotable, and_assoc])

instance (s : String) : Decidable (IsComment s) :=
  inferInstanceAs (Decidable (_ ∧ _))

/-- A name that is no label, or a map from names to names. -/
def IsFieldType (s : String) : Prop :=
  (IsName s ∧ s ≠ "repeated" ∧ s ≠ "optional" ∧ s ≠ "required") ∨
    ∃ key value, IsName key ∧ IsName value ∧ s = "map<" ++ key ++ ", " ++ value ++ ">"

end Printer

structure Rpc.Printable (r : Rpc) : Prop where
  name : Printer.IsWord r.name
  request : Printer.IsName r.request
  response : Printer.IsName r.response
  docs : ∀ d ∈ r.docs, Printer.IsComment d

structure Service.Printable (s : Service) : Prop where
  name : Printer.IsWord s.name
  docs : ∀ d ∈ s.docs, Printer.IsComment d
  rpcs : ∀ r ∈ s.rpcs, r.Printable

structure MessageField.Printable (f : MessageField) : Prop where
  type : Printer.IsFieldType f.type
  name : Printer.IsWord f.name
  number : Printer.IsDigits f.number
  docs : ∀ d ∈ f.docs, Printer.IsComment d

structure Message.Printable (m : Message) : Prop where
  name : Printer.IsWord m.name
  docs : ∀ d ∈ m.docs, Printer.IsComment d
  fields : ∀ f ∈ m.fields, f.Printable

structure EnumValue.Printable (v : EnumValue) : Prop where
  name : Printer.IsWord v.name
  number : Printer.IsNumber v.number
  docs : ∀ d ∈ v.docs, Printer.IsComment d

structure EnumDecl.Printable (e : EnumDecl) : Prop where
  name : Printer.IsWord e.name
  docs : ∀ d ∈ e.docs, Printer.IsComment d
  values : ∀ v ∈ e.values, v.Printable

/-- The schemas that have a canonical text. -/
structure Schema.Printable (s : Schema) : Prop where
  dialect : s.dialect = "" ∨ Printer.IsQuotable s.dialect
  package : s.package = "" ∨ Printer.IsName s.package
  imports : ∀ path ∈ s.imports, Printer.IsQuotable path
  services : ∀ x ∈ s.services, x.Printable
  messages : ∀ x ∈ s.messages, x.Printable
  enums : ∀ x ∈ s.enums, x.Printable

end ApiPages

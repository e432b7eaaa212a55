import ApiPages.Schema.Basic
import ApiPages.Text.Quoted

/-!
# Comparing a schema with what is declared

The documentation view of a file is flat and read line by line.  `Descriptor` is what the file
really declares, as far as the two can be compared, and `Descriptor.compare` lists where they
differ.
-/

namespace ApiPages

/-! ## Declarations -/

structure DeclaredService where
  name : String
  methods : Nat
  deriving DecidableEq, Repr

/-- A message declared inside another one.  A map field declares one for its entries. -/
structure NestedMessage where
  name : String
  isMapEntry : Bool := false
  deriving DecidableEq, Repr

structure DeclaredMessage where
  name : String
  /-- The number of fields, map fields included. -/
  fields : Nat
  nested : List NestedMessage := []
  enums : List String := []
  deriving DecidableEq, Repr

/-- What a definition file declares at top level. -/
structure Descriptor where
  path : String
  package : String := ""
  services : List DeclaredService := []
  messages : List DeclaredMessage := []
  enums : List String := []
  deriving DecidableEq, Repr

namespace Descriptor

/-- The full name of a declaration of the file. -/
def fullName (d : Descriptor) (name : String) : String :=
  if d.package.isEmpty then name else d.package ++ "." ++ name

end Descriptor

/-- The declarations nested in a message, not counting map entries. -/
def DeclaredMessage.nestedCount (m : DeclaredMessage) : Nat :=
  m.enums.length + (m.nested.filter (fun n => !n.isMapEntry)).length

/-! ## Findings -/

/-- One place where a schema differs from the file. -/
structure Finding where
  element : String
  message : String
  deriving DecidableEq, Repr

def Finding.text (f : Finding) : String := f.element ++ ": " ++ f.message

namespace Descriptor

/-- A finding about two counts, unless they agree. -/
def countFinding (element what : String) (declared parsed : Nat) : List Finding :=
  if declared == parsed then []
  else
    [{ element
       message :=
         toString declared ++ " " ++ what ++ " declared, " ++ toString parsed ++ " parsed" }]

def packageFinding (d : Descriptor) (s : Schema) : List Finding :=
  if d.package == s.package then []
  else
    [{ element := d.path
       message := "package is " ++ Text.quoted d.package ++ ", parsed " ++ Text.quoted s.package }]

def serviceFindings (d : Descriptor) (s : Schema) (declared : DeclaredService) : List Finding :=
  let element := d.fullName declared.name
  match s.services.find? (·.name == declared.name) with
  | none => [{ element, message := "service not parsed" }]
  | some parsed => countFinding element "methods" declared.methods parsed.rpcs.length

def messageFindings (d : Descriptor) (s : Schema) (declared : DeclaredMessage) : List Finding :=
  let element := d.fullName declared.name
  let nested := declared.nestedCount
  (if nested == 0 then []
    else [{ element, message := toString nested ++ " nested declarations are documented flat" }]) ++
  match s.messages.find? (·.name == declared.name) with
  | none => [{ element, message := "message not parsed" }]
  | some parsed => countFinding element "fields" declared.fields parsed.fields.length

/-- Where a schema differs from what the file declares. -/
def compare (d : Descriptor) (s : Schema) : List Finding :=
  d.packageFinding s ++
    countFinding d.path "services" d.services.length s.services.length ++
    d.services.flatMap (d.serviceFindings s) ++
    countFinding d.path "top-level messages" d.messages.length s.messages.length ++
    d.messages.flatMap (d.messageFindings s) ++
    countFinding d.path "top-level enums" d.enums.length s.enums.length

end Descriptor
end ApiPages

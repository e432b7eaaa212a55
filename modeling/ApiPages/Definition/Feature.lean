import ApiPages.Definition.Tree

/-!
# Features

How fields and enums behave depends on features.  They are set by options of a declaration or of
what surrounds it, and otherwise follow from the dialect of the file.

* `Feature` are the features with their values;
* `Feature.value` is the value of a feature at a place.
-/

namespace ApiPages
namespace Definition

inductive Feature where
  | fieldPresence
  | enumType
  | repeatedFieldEncoding
  | textValidation
  | messageEncoding
  | jsonFormat
  deriving DecidableEq, Repr

namespace Feature

def name : Feature → String
  | fieldPresence => "field_presence"
  | enumType => "enum_type"
  | repeatedFieldEncoding => "repeated_field_encoding"
  | textValidation => "utf8_validation"
  | messageEncoding => "message_encoding"
  | jsonFormat => "json_format"

/-- The values of a feature with their numbers. -/
def values : Feature → List (String × Int)
  | fieldPresence =>
      [("FIELD_PRESENCE_UNKNOWN", 0), ("EXPLICIT", 1), ("IMPLICIT", 2), ("LEGACY_REQUIRED", 3)]
  | enumType => [("ENUM_TYPE_UNKNOWN", 0), ("OPEN", 1), ("CLOSED", 2)]
  | repeatedFieldEncoding =>
      [("REPEATED_FIELD_ENCODING_UNKNOWN", 0), ("PACKED", 1), ("EXPANDED", 2)]
  | textValidation => [("UTF8_VALIDATION_UNKNOWN", 0), ("VERIFY", 2), ("NONE", 3)]
  | messageEncoding => [("MESSAGE_ENCODING_UNKNOWN", 0), ("LENGTH_PREFIXED", 1), ("DELIMITED", 2)]
  | jsonFormat => [("JSON_FORMAT_UNKNOWN", 0), ("ALLOW", 1), ("LEGACY_BEST_EFFORT", 2)]

/-- The value of a feature where it is not set. -/
def default (d : Dialect) : Feature → String
  | fieldPresence => if d == .proto3 then "IMPLICIT" else "EXPLICIT"
  | enumType => if d == .proto2 then "CLOSED" else "OPEN"
  | repeatedFieldEncoding => if d == .proto2 then "EXPANDED" else "PACKED"
  | textValidation => if d == .proto2 then "NONE" else "VERIFY"
  | messageEncoding => "LENGTH_PREFIXED"
  | jsonFormat => if d == .proto2 then "LEGACY_BEST_EFFORT" else "ALLOW"

/-- The name of the value that is written in a message. -/
def valueOf? (f : Feature) : Literal → Option String
  | .word w => some w
  | .whole n => (f.values.find? (·.2 == n)).map (·.1)
  | _ => none

/-- The value that options give to a feature. -/
def setting? (f : Feature) (os : Options) : Option String :=
  os.findSome? fun o =>
    match o.name, o.value with
    | [.word "features", .word n], .word w => if n == f.name then some w else none
    | [.word "features"], .message fields =>
        fields.findSome? fun (n, v) => if n == .field f.name then f.valueOf? v else none
    | _, _ => none

/-- The value of a feature, given the options of a declaration and those of what surrounds it, from
the inside out. -/
def value (f : Feature) (d : Dialect) (chain : List Options) : String :=
  (chain.findSome? f.setting?).getD (f.default d)

end Feature
end Definition
end ApiPages

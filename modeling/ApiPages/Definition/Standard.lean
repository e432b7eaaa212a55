import ApiPages.Definition.Tree

/-!
# Standard files

The files that can be imported without being there.  The first of them declares the messages whose
fields are the options of declarations.

* `Standard.table`, `Standard.optional`, `Standard.repeated` and `Standard.enum` write declarations
  as rows of a table;
* `Standard.descriptor` declares the options;
* `Standard.file?` finds a standard file by its path.
-/

namespace ApiPages
namespace Definition
namespace Standard

/-! ## Rows -/

/-- A row of a table: the type, the name and the number of a field. -/
abbrev Row := String × String × Nat

def typeName (s : String) : TypeName := { parts := Text.pieces '.' s }

def fields (label : Option Label) (rows : List Row) : List FieldDecl :=
  rows.map fun (type, name, number) => { label, type := typeName type, name, number }

def optional (rows : List Row) : List FieldDecl := fields (some .optional) rows

def repeated (rows : List Row) : List FieldDecl := fields (some .repeated) rows

def enum (name : String) (values : List (String × Int)) : EnumDef :=
  { name := name, values := values.map fun (name, number) => { name := name, number } }

/-- A message of fields alone. -/
def table (name : String) (fields : List FieldDecl) : MessageDef := { name := name, fields }

def use (name : String) (value : Literal) : OptionUse := { name := [.word name], value }

/-- An optional field that is an option for some kinds of declarations only. -/
def targeted (targets : List String) (row : Row) : FieldDecl :=
  { label := some .optional, type := typeName row.1, name := row.2.1, number := row.2.2
    options := targets.map fun t => use "targets" (.word ("TARGET_TYPE_" ++ t)) }

/-- A feature that came with a later edition. -/
def later (f : FieldDecl) : FieldDecl :=
  { f with options := f.options ++
      [use "feature_support" (.message [(.field "edition_introduced", .word "EDITION_2024")])] }

/-- The numbers from which on extensions can be declared. -/
def open1000 : List ExtensionRange := [{ range := { first := 1000, last? := none } }]

/-! ## Descriptors -/

def edition : EnumDef :=
  enum "Edition"
    [("EDITION_UNKNOWN", 0), ("EDITION_LEGACY", 900), ("EDITION_PROTO2", 998),
      ("EDITION_PROTO3", 999),
      ("EDITION_2023", 1000), ("EDITION_2024", 1001), ("EDITION_1_TEST_ONLY", 1),
      ("EDITION_2_TEST_ONLY", 2), ("EDITION_99997_TEST_ONLY", 99997),
      ("EDITION_99998_TEST_ONLY", 99998), ("EDITION_99999_TEST_ONLY", 99999),
      ("EDITION_MAX", 2147483647)]

def fileDescriptors : List MessageDef :=
  [table "FileDescriptorSet" (repeated [("FileDescriptorProto", "file", 1)]),
    table "FileDescriptorProto"
      (optional [("string", "name", 1), ("string", "package", 2), ("FileOptions", "options", 8),
        ("SourceCodeInfo", "source_code_info", 9), ("string", "syntax", 12),
        ("Edition", "edition", 14)] ++
      repeated [("string", "dependency", 3), ("int32", "public_dependency", 10),
        ("int32", "weak_dependency", 11), ("DescriptorProto", "message_type", 4),
        ("EnumDescriptorProto", "enum_type", 5), ("ServiceDescriptorProto", "service", 6),
        ("FieldDescriptorProto", "extension", 7)])]

def messageDescriptor : MessageDef :=
  { name := "DescriptorProto"
    fields :=
      optional [("string", "name", 1), ("MessageOptions", "options", 7)] ++
      repeated [("FieldDescriptorProto", "field", 2), ("FieldDescriptorProto", "extension", 6),
        ("DescriptorProto", "nested_type", 3), ("EnumDescriptorProto", "enum_type", 4),
        ("ExtensionRange", "extension_range", 5), ("OneofDescriptorProto", "oneof_decl", 8),
        ("ReservedRange", "reserved_range", 9), ("string", "reserved_name", 10)]
    nested :=
      [table "ExtensionRange"
        (optional [("int32", "start", 1), ("int32", "end", 2),
          ("ExtensionRangeOptions", "options", 3)]),
        table "ReservedRange" (optional [("int32", "start", 1), ("int32", "end", 2)])] }

def fieldDescriptor : MessageDef :=
  { name := "FieldDescriptorProto"
    fields :=
      optional [("string", "name", 1), ("int32", "number", 3), ("Label", "label", 4),
        ("Type", "type", 5),
        ("string", "type_name", 6), ("string", "extendee", 2), ("string", "default_value", 7),
        ("int32", "oneof_index", 9), ("string", "json_name", 10), ("FieldOptions", "options", 8),
        ("bool", "proto3_optional", 17)]
    enums :=
      [enum "Type"
        [("TYPE_DOUBLE", 1), ("TYPE_FLOAT", 2), ("TYPE_INT64", 3), ("TYPE_UINT64", 4),
          ("TYPE_INT32", 5), ("TYPE_FIXED64", 6), ("TYPE_FIXED32", 7), ("TYPE_BOOL", 8),
          ("TYPE_STRING", 9), ("TYPE_GROUP", 10), ("TYPE_MESSAGE", 11), ("TYPE_BYTES", 12),
          ("TYPE_UINT32", 13), ("TYPE_ENUM", 14), ("TYPE_SFIXED32", 15), ("TYPE_SFIXED64", 16),
          ("TYPE_SINT32", 17), ("TYPE_SINT64", 18)],
        enum "Label" [("LABEL_OPTIONAL", 1), ("LABEL_REPEATED", 3), ("LABEL_REQUIRED", 2)]] }

def otherDescriptors : List MessageDef :=
  [table "OneofDescriptorProto" (optional [("string", "name", 1), ("OneofOptions", "options", 2)]),
    { name := "EnumDescriptorProto"
      fields :=
        optional [("string", "name", 1), ("EnumOptions", "options", 3)] ++
        repeated [("EnumValueDescriptorProto", "value", 2),
          ("EnumReservedRange", "reserved_range", 4), ("string", "reserved_name", 5)]
      nested :=
        [table "EnumReservedRange" (optional [("int32", "start", 1), ("int32", "end", 2)])] },
    table "EnumValueDescriptorProto"
      (optional [("string", "name", 1), ("int32", "number", 2),
        ("EnumValueOptions", "options", 3)]),
    table "ServiceDescriptorProto"
      (optional [("string", "name", 1), ("ServiceOptions", "options", 3)] ++
        repeated [("MethodDescriptorProto", "method", 2)]),
    table "MethodDescriptorProto"
      (optional [("string", "name", 1), ("string", "input_type", 2), ("string", "output_type", 3),
        ("MethodOptions", "options", 4), ("bool", "client_streaming", 5),
        ("bool", "server_streaming", 6)])]

/-! ## Options -/

/-- A message of options, which can be extended and can hold options that are not understood. -/
def optionTable (name : String) (fields : List FieldDecl) : MessageDef :=
  { name := name
    fields := fields ++ repeated [("UninterpretedOption", "uninterpreted_option", 999)]
    ranges := open1000 }

def fileOptions : MessageDef :=
  { optionTable "FileOptions"
      (optional [("string", "java_package", 1), ("string", "java_outer_classname", 8),
        ("bool", "java_multiple_files", 10), ("bool", "java_generate_equals_and_hash", 20),
        ("bool", "java_string_check_utf8", 27), ("OptimizeMode", "optimize_for", 9),
        ("string", "go_package", 11), ("bool", "cc_generic_services", 16),
        ("bool", "java_generic_services", 17), ("bool", "py_generic_services", 18),
        ("bool", "deprecated", 23), ("bool", "cc_enable_arenas", 31),
        ("string", "objc_class_prefix", 36),
        ("string", "csharp_namespace", 37), ("string", "swift_prefix", 39),
        ("string", "php_class_prefix", 40), ("string", "php_namespace", 41),
        ("string", "php_metadata_namespace", 44), ("string", "ruby_package", 45),
        ("FeatureSet", "features", 50)]) with
    enums := [enum "OptimizeMode" [("SPEED", 1), ("CODE_SIZE", 2), ("LITE_RUNTIME", 3)]] }

def messageOptions : MessageDef :=
  optionTable "MessageOptions"
    (optional [("bool", "message_set_wire_format", 1),
      ("bool", "no_standard_descriptor_accessor", 2),
      ("bool", "deprecated", 3), ("bool", "map_entry", 7),
      ("bool", "deprecated_legacy_json_field_conflicts", 11), ("FeatureSet", "features", 12)])

def fieldOptions : MessageDef :=
  { optionTable "FieldOptions"
      (optional [("CType", "ctype", 1), ("bool", "packed", 2), ("JSType", "jstype", 6),
        ("bool", "lazy", 5),
        ("bool", "unverified_lazy", 15), ("bool", "deprecated", 3), ("bool", "weak", 10),
        ("bool", "debug_redact", 16), ("OptionRetention", "retention", 17),
        ("FeatureSet", "features", 21), ("FeatureSupport", "feature_support", 22)] ++
      repeated [("OptionTargetType", "targets", 19),
        ("EditionDefault", "edition_defaults", 20)]) with
    nested :=
      [table "EditionDefault" (optional [("Edition", "edition", 3), ("string", "value", 2)]),
        table "FeatureSupport"
          (optional [("Edition", "edition_introduced", 1), ("Edition", "edition_deprecated", 2),
            ("string", "deprecation_warning", 3), ("Edition", "edition_removed", 4)])]
    enums :=
      [enum "CType" [("STRING", 0), ("CORD", 1), ("STRING_PIECE", 2)],
        enum "JSType" [("JS_NORMAL", 0), ("JS_STRING", 1), ("JS_NUMBER", 2)],
        enum "OptionRetention"
          [("RETENTION_UNKNOWN", 0), ("RETENTION_RUNTIME", 1), ("RETENTION_SOURCE", 2)],
        enum "OptionTargetType"
          [("TARGET_TYPE_UNKNOWN", 0), ("TARGET_TYPE_FILE", 1), ("TARGET_TYPE_EXTENSION_RANGE", 2),
            ("TARGET_TYPE_MESSAGE", 3), ("TARGET_TYPE_FIELD", 4), ("TARGET_TYPE_ONEOF", 5),
            ("TARGET_TYPE_ENUM", 6), ("TARGET_TYPE_ENUM_ENTRY", 7), ("TARGET_TYPE_SERVICE", 8),
            ("TARGET_TYPE_METHOD", 9)]] }

def enumOptions : List MessageDef :=
  [optionTable "EnumOptions"
      (optional [("bool", "allow_alias", 2), ("bool", "deprecated", 3),
        ("bool", "deprecated_legacy_json_field_conflicts", 6), ("FeatureSet", "features", 7)]),
    optionTable "EnumValueOptions"
      (optional [("bool", "deprecated", 1), ("FeatureSet", "features", 2),
        ("bool", "debug_redact", 3), ("FieldOptions.FeatureSupport", "feature_support", 4)])]

def methodOptions : MessageDef :=
  { optionTable "MethodOptions"
      (optional [("bool", "deprecated", 33), ("IdempotencyLevel", "idempotency_level", 34),
        ("FeatureSet", "features", 35)]) with
    enums :=
      [enum "IdempotencyLevel"
        [("IDEMPOTENCY_UNKNOWN", 0), ("NO_SIDE_EFFECTS", 1), ("IDEMPOTENT", 2)]] }

def rangeOptions : MessageDef :=
  { optionTable "ExtensionRangeOptions"
      (repeated [("Declaration", "declaration", 2)] ++
        optional [("FeatureSet", "features", 50), ("VerificationState", "verification", 3)]) with
    nested :=
      [table "Declaration"
        (optional [("int32", "number", 1), ("string", "full_name", 2), ("string", "type", 3),
          ("bool", "reserved", 5), ("bool", "repeated", 6)])]
    enums := [enum "VerificationState" [("DECLARATION", 0), ("UNVERIFIED", 1)]] }

/-- An option that is not understood. -/
def otherOption : MessageDef :=
  { name := "UninterpretedOption"
    fields :=
      repeated [("NamePart", "name", 2)] ++
      optional [("string", "identifier_value", 3), ("uint64", "positive_int_value", 4),
        ("int64", "negative_int_value", 5), ("double", "double_value", 6),
        ("bytes", "string_value", 7), ("string", "aggregate_value", 8)]
    nested :=
      [table "NamePart"
        (fields (some .required) [("string", "name_part", 1), ("bool", "is_extension", 2)])] }

/-! ## Features -/

/-- A declaration of an extension of the features. -/
def declaration (number : Int) (name type : String) : OptionUse :=
  use "declaration"
    (.message [(.field "number", .whole number), (.field "full_name", .text name),
      (.field "type", .text type)])

def featureSet : MessageDef :=
  { name := "FeatureSet"
    fields :=
      [targeted ["FIELD", "FILE"] ("FieldPresence", "field_presence", 1),
        targeted ["ENUM", "FILE"] ("EnumType", "enum_type", 2),
        targeted ["FIELD", "FILE"] ("RepeatedFieldEncoding", "repeated_field_encoding", 3),
        targeted ["FIELD", "FILE"] ("Utf8Validation", "utf8_validation", 4),
        targeted ["FIELD", "FILE"] ("MessageEncoding", "message_encoding", 5),
        targeted ["MESSAGE", "ENUM", "FILE"] ("JsonFormat", "json_format", 6)]
    enums :=
      [enum "FieldPresence"
        [("FIELD_PRESENCE_UNKNOWN", 0), ("EXPLICIT", 1), ("IMPLICIT", 2), ("LEGACY_REQUIRED", 3)],
        enum "EnumType" [("ENUM_TYPE_UNKNOWN", 0), ("OPEN", 1), ("CLOSED", 2)],
        enum "RepeatedFieldEncoding"
          [("REPEATED_FIELD_ENCODING_UNKNOWN", 0), ("PACKED", 1), ("EXPANDED", 2)],
        enum "Utf8Validation" [("UTF8_VALIDATION_UNKNOWN", 0), ("VERIFY", 2), ("NONE", 3)],
        enum "MessageEncoding"
          [("MESSAGE_ENCODING_UNKNOWN", 0), ("LENGTH_PREFIXED", 1), ("DELIMITED", 2)],
        enum "JsonFormat" [("JSON_FORMAT_UNKNOWN", 0), ("ALLOW", 1), ("LEGACY_BEST_EFFORT", 2)]]
    ranges :=
      [{ range := { first := 1000, last? := some 9994 }
         options := [declaration 1000 ".pb.cpp" ".pb.CppFeatures",
           declaration 1001 ".pb.java" ".pb.JavaFeatures",
           declaration 1002 ".pb.go" ".pb.GoFeatures",
           declaration 9990 ".pb.proto1" ".pb.Proto1Features"] },
        { range := { first := 9995, last? := some 9999 } },
        { range := { first := 10000, last? := some 10000 } }] }

def featureDefaults : MessageDef :=
  { name := "FeatureSetDefaults"
    fields :=
      repeated [("FeatureSetEditionDefault", "defaults", 1)] ++
      optional [("Edition", "minimum_edition", 4), ("Edition", "maximum_edition", 5)]
    nested :=
      [table "FeatureSetEditionDefault"
        (optional [("Edition", "edition", 3), ("FeatureSet", "overridable_features", 4),
          ("FeatureSet", "fixed_features", 5)])] }

/-! ## Notes on the text -/

def textNotes : List MessageDef :=
  [{ name := "SourceCodeInfo"
     fields := repeated [("Location", "location", 1)]
     nested :=
      [table "Location"
        (repeated [("int32", "path", 1), ("int32", "span", 2),
          ("string", "leading_detached_comments", 6)] ++
        optional [("string", "leading_comments", 3), ("string", "trailing_comments", 4)])] },
    { name := "GeneratedCodeInfo"
      fields := repeated [("Annotation", "annotation", 1)]
      nested :=
        [{ name := "Annotation"
           fields :=
            repeated [("int32", "path", 1)] ++
            optional [("string", "source_file", 2), ("int32", "begin", 3), ("int32", "end", 4),
              ("Semantic", "semantic", 5)]
           enums := [enum "Semantic" [("NONE", 0), ("SET", 1), ("ALIAS", 2)]] }] }]

def descriptor : FileDef :=
  { package := "google.protobuf"
    messages :=
      fileDescriptors ++ [messageDescriptor, rangeOptions, fieldDescriptor] ++ otherDescriptors ++
      [fileOptions, messageOptions, fieldOptions,
        optionTable "OneofOptions" (optional [("FeatureSet", "features", 1)])] ++ enumOptions ++
      [optionTable "ServiceOptions"
        (optional [("FeatureSet", "features", 34), ("bool", "deprecated", 33)]),
        methodOptions, otherOption, featureSet, featureDefaults] ++ textNotes
    enums := [edition] }

/-! ## Plugins and features of languages -/

def plugin : FileDef :=
  { package := "google.protobuf.compiler"
    imports := [{ path := "google/protobuf/descriptor.proto" }]
    messages :=
      [table "Version"
        (optional [("int32", "major", 1), ("int32", "minor", 2), ("int32", "patch", 3),
          ("string", "suffix", 4)]),
        table "CodeGeneratorRequest"
          (repeated [("string", "file_to_generate", 1), ("FileDescriptorProto", "proto_file", 15),
            ("FileDescriptorProto", "source_file_descriptors", 17)] ++
          optional [("string", "parameter", 2), ("Version", "compiler_version", 3)]),
        { name := "CodeGeneratorResponse"
          fields :=
            optional [("string", "error", 1), ("uint64", "supported_features", 2),
              ("int32", "minimum_edition", 3), ("int32", "maximum_edition", 4)] ++
            repeated [("File", "file", 15)]
          nested :=
            [table "File"
              (optional [("string", "name", 1), ("string", "insertion_point", 2),
                ("string", "content", 15), ("GeneratedCodeInfo", "generated_code_info", 16)])]
          enums :=
            [enum "Feature"
              [("FEATURE_NONE", 0), ("FEATURE_PROTO3_OPTIONAL", 1),
                ("FEATURE_SUPPORTS_EDITIONS", 2)]] }] }

/-- A file that extends the features by those of a language. -/
def languageFeatures (name : String) (number : Nat) (m : MessageDef) : FileDef :=
  { package := "pb"
    imports := [{ path := "google/protobuf/descriptor.proto" }]
    messages := [m]
    extensions :=
      [{ target := typeName "google.protobuf.FeatureSet"
         fields := optional [(m.name, name, number)] }] }

def cppFeatures : FileDef :=
  languageFeatures "cpp" 1000
    { name := "CppFeatures"
      fields :=
        [targeted ["FIELD", "FILE"] ("bool", "legacy_closed_enum", 1),
          targeted ["FIELD", "FILE"] ("StringType", "string_type", 2)]
      enums :=
        [enum "StringType" [("STRING_TYPE_UNKNOWN", 0), ("VIEW", 1), ("CORD", 2), ("STRING", 3)]] }

def javaFeatures : FileDef :=
  languageFeatures "java" 1001
    { name := "JavaFeatures"
      fields :=
        [targeted ["FIELD", "FILE"] ("bool", "legacy_closed_enum", 1),
          targeted ["FIELD", "FILE"] ("Utf8Validation", "utf8_validation", 2)]
      enums :=
        [enum "Utf8Validation" [("UTF8_VALIDATION_UNKNOWN", 0), ("DEFAULT", 1), ("VERIFY", 2)]] }

def goFeatures : FileDef :=
  languageFeatures "go" 1002
    { name := "GoFeatures"
      fields :=
        [targeted ["ENUM", "FILE"] ("bool", "legacy_unmarshal_json_enum", 1),
          targeted ["MESSAGE", "FILE"] ("APILevel", "api_level", 2),
          later (targeted ["ENUM", "ENUM_ENTRY", "FILE"]
            ("StripEnumPrefix", "strip_enum_prefix", 3))]
      enums :=
        [enum "APILevel"
          [("API_LEVEL_UNSPECIFIED", 0), ("API_OPEN", 1), ("API_HYBRID", 2), ("API_OPAQUE", 3)],
          enum "StripEnumPrefix"
            [("STRIP_ENUM_PREFIX_UNSPECIFIED", 0), ("STRIP_ENUM_PREFIX_KEEP", 1),
              ("STRIP_ENUM_PREFIX_GENERATE_BOTH", 2), ("STRIP_ENUM_PREFIX_STRIP", 3)]] }

/-! ## Well-known types -/

/-- A file of the dialect without labels. -/
def wellKnown (imports : List String) (messages : List MessageDef) : FileDef :=
  { dialect := .proto3
    package := "google.protobuf"
    imports := imports.map fun name => { path := "google/protobuf/" ++ name ++ ".proto" }
    messages }

def single (rows : List Row) : List FieldDecl := fields none rows

def any : FileDef :=
  wellKnown [] [table "Any" (single [("string", "type_url", 1), ("bytes", "value", 2)])]

def sourceContext : FileDef :=
  wellKnown [] [table "SourceContext" (single [("string", "file_name", 1)])]

def instant (name : String) : FileDef :=
  wellKnown [] [table name (single [("int64", "seconds", 1), ("int32", "nanos", 2)])]

def empty : FileDef := wellKnown [] [table "Empty" []]

def fieldMask : FileDef := wellKnown [] [table "FieldMask" (repeated [("string", "paths", 1)])]

def struct : FileDef :=
  let value (f : FieldDecl) : FieldDecl := { f with oneof := some "kind" }
  { wellKnown []
      [{ name := "Struct"
         fields := (repeated [("FieldsEntry", "fields", 1)]).map fun f => { f with isMap := true }
         nested :=
          [{ name := "FieldsEntry", fields := single [("string", "key", 1), ("Value", "value", 2)]
             isEntry := true }] },
        { name := "Value"
          fields := (single [("NullValue", "null_value", 1), ("double", "number_value", 2),
            ("string", "string_value", 3), ("bool", "bool_value", 4), ("Struct", "struct_value", 5),
            ("ListValue", "list_value", 6)]).map value
          oneofs := [{ name := "kind" }] },
        table "ListValue" (repeated [("Value", "values", 1)])] with
    enums := [enum "NullValue" [("NULL_VALUE", 0)]] }

def wrappers : FileDef :=
  wellKnown []
    ([("Double", "double"), ("Float", "float"), ("Int64", "int64"), ("UInt64", "uint64"),
      ("Int32", "int32"), ("UInt32", "uint32"), ("Bool", "bool"), ("String", "string"),
      ("Bytes", "bytes")].map fun (name, type) =>
        table (name ++ "Value") (single [(type, "value", 1)]))

def types : FileDef :=
  { wellKnown ["any", "source_context"]
      [table "Type"
        (single [("string", "name", 1), ("SourceContext", "source_context", 5),
          ("Syntax", "syntax", 6), ("string", "edition", 7)] ++
        repeated [("Field", "fields", 2), ("string", "oneofs", 3), ("Option", "options", 4)]),
        { name := "Field"
          fields :=
            single [("Kind", "kind", 1), ("Cardinality", "cardinality", 2), ("int32", "number", 3),
              ("string", "name", 4), ("string", "type_url", 6), ("int32", "oneof_index", 7),
              ("bool", "packed", 8), ("string", "json_name", 10),
              ("string", "default_value", 11)] ++
            repeated [("Option", "options", 9)]
          enums :=
            [enum "Kind"
              [("TYPE_UNKNOWN", 0), ("TYPE_DOUBLE", 1), ("TYPE_FLOAT", 2), ("TYPE_INT64", 3),
                ("TYPE_UINT64", 4), ("TYPE_INT32", 5), ("TYPE_FIXED64", 6), ("TYPE_FIXED32", 7),
                ("TYPE_BOOL", 8), ("TYPE_STRING", 9), ("TYPE_GROUP", 10), ("TYPE_MESSAGE", 11),
                ("TYPE_BYTES", 12), ("TYPE_UINT32", 13), ("TYPE_ENUM", 14), ("TYPE_SFIXED32", 15),
                ("TYPE_SFIXED64", 16), ("TYPE_SINT32", 17), ("TYPE_SINT64", 18)],
              enum "Cardinality"
                [("CARDINALITY_UNKNOWN", 0), ("CARDINALITY_OPTIONAL", 1),
                  ("CARDINALITY_REQUIRED", 2), ("CARDINALITY_REPEATED", 3)]] },
        table "Enum"
          (single [("string", "name", 1), ("SourceContext", "source_context", 4),
            ("Syntax", "syntax", 5), ("string", "edition", 6)] ++
          repeated [("EnumValue", "enumvalue", 2), ("Option", "options", 3)]),
        table "EnumValue"
          (single [("string", "name", 1), ("int32", "number", 2)] ++
            repeated [("Option", "options", 3)]),
        table "Option" (single [("string", "name", 1), ("Any", "value", 2)])] with
    enums := [enum "Syntax" [("SYNTAX_PROTO2", 0), ("SYNTAX_PROTO3", 1), ("SYNTAX_EDITIONS", 2)]] }

def api : FileDef :=
  wellKnown ["source_context", "type"]
    [table "Api"
      (single [("string", "name", 1), ("string", "version", 4),
        ("SourceContext", "source_context", 5), ("Syntax", "syntax", 7)] ++
      repeated [("Method", "methods", 2), ("Option", "options", 3), ("Mixin", "mixins", 6)]),
      table "Method"
        (single [("string", "name", 1), ("string", "request_type_url", 2),
          ("bool", "request_streaming", 3),
          ("string", "response_type_url", 4), ("bool", "response_streaming", 5),
          ("Syntax", "syntax", 7)] ++ repeated [("Option", "options", 6)]),
      table "Mixin" (single [("string", "name", 1), ("string", "root", 2)])]

/-! ## All files -/

def files : List (String × FileDef) :=
  [("any", any), ("api", api), ("compiler/plugin", plugin), ("cpp_features", cppFeatures),
    ("descriptor", descriptor), ("duration", instant "Duration"), ("empty", empty),
    ("field_mask", fieldMask), ("go_features", goFeatures), ("java_features", javaFeatures),
    ("source_context", sourceContext), ("struct", struct), ("timestamp", instant "Timestamp"),
    ("type", types), ("wrappers", wrappers)]

/-- The standard file with a path. -/
def file? (path : String) : Option FileDef :=
  (files.find? fun f => "google/protobuf/" ++ f.1 ++ ".proto" == path).map (·.2)

end Standard
end Definition
end ApiPages

import SchemaGraph.Descriptor.Basic
import SchemaGraph.Wire.Message

/-!
# Reading a descriptor set

The grammar of `google.protobuf.FileDescriptorSet` and all message types
inside it, and the declarations that its fields stand for.  Fields which the
graph does not need are still read, because a malformed one makes the whole
set malformed.
-/

namespace SchemaGraph.Descriptor

open Wire

/-- The message types of a descriptor set. -/
inductive Kind where
  | fileSet
  | file
  | message
  | extensionRange
  | reservedRange
  | field
  | oneof
  | enum
  | enumReservedRange
  | enumValue
  | service
  | method
  | fileOptions
  | messageOptions
  | fieldOptions
  | oneofOptions
  | enumOptions
  | enumValueOptions
  | serviceOptions
  | methodOptions
  | extensionRangeOptions
  | uninterpretedOption
  | namePart
  | sourceCodeInfo
  | location
  deriving DecidableEq, Repr

/-- The name of a message type in messages about faults. -/
def Kind.name : Kind → String
  | .fileSet => "FileDescriptorSet"
  | .file => "FileDescriptorProto"
  | .message => "DescriptorProto"
  | .extensionRange => "ExtensionRange"
  | .reservedRange => "ReservedRange"
  | .field => "FieldDescriptorProto"
  | .oneof => "OneofDescriptorProto"
  | .enum => "EnumDescriptorProto"
  | .enumReservedRange => "EnumReservedRange"
  | .enumValue => "EnumValueDescriptorProto"
  | .service => "ServiceDescriptorProto"
  | .method => "MethodDescriptorProto"
  | .fileOptions => "FileOptions"
  | .messageOptions => "MessageOptions"
  | .fieldOptions => "FieldOptions"
  | .oneofOptions => "OneofOptions"
  | .enumOptions => "EnumOptions"
  | .enumValueOptions => "EnumValueOptions"
  | .serviceOptions => "ServiceOptions"
  | .methodOptions => "MethodOptions"
  | .extensionRangeOptions => "ExtensionRangeOptions"
  | .uninterpretedOption => "UninterpretedOption"
  | .namePart => "NamePart"
  | .sourceCodeInfo => "SourceCodeInfo"
  | .location => "Location"

/-- The field that every options message has. -/
def uninterpreted : Nat × String × Slot Kind :=
  (999, "uninterpreted_option", .record .uninterpretedOption)

/-- The fields of a message type: number, name, and how it is written. -/
def Kind.fields : Kind → List (Nat × String × Slot Kind)
  | .fileSet => [(1, "file", .record .file)]
  | .file =>
    [(1, "name", .text), (2, "package", .text), (3, "dependency", .text),
     (10, "public_dependency", .varints), (11, "weak_dependency", .varints),
     (4, "message_type", .record .message), (5, "enum_type", .record .enum),
     (6, "service", .record .service), (7, "extension", .record .field),
     (8, "options", .record .fileOptions), (9, "source_code_info", .record .sourceCodeInfo),
     (12, "syntax", .text)]
  | .message =>
    [(1, "name", .text), (2, "field", .record .field), (6, "extension", .record .field),
     (3, "nested_type", .record .message), (4, "enum_type", .record .enum),
     (5, "extension_range", .record .extensionRange), (8, "oneof_decl", .record .oneof),
     (7, "options", .record .messageOptions), (9, "reserved_range", .record .reservedRange),
     (10, "reserved_name", .text)]
  | .extensionRange =>
    [(1, "start", .varint), (2, "end", .varint), (3, "options", .record .extensionRangeOptions)]
  | .reservedRange => [(1, "start", .varint), (2, "end", .varint)]
  | .enumReservedRange => [(1, "start", .varint), (2, "end", .varint)]
  | .field =>
    [(1, "name", .text), (3, "number", .varint), (4, "label", .varint), (5, "r#type", .varint),
     (6, "type_name", .text), (2, "extendee", .text), (7, "default_value", .text),
     (9, "oneof_index", .varint), (10, "json_name", .text), (8, "options", .record .fieldOptions),
     (17, "proto3_optional", .varint)]
  | .oneof => [(1, "name", .text), (2, "options", .record .oneofOptions)]
  | .enum =>
    [(1, "name", .text), (2, "value", .record .enumValue), (3, "options", .record .enumOptions),
     (4, "reserved_range", .record .enumReservedRange), (5, "reserved_name", .text)]
  | .enumValue =>
    [(1, "name", .text), (2, "number", .varint), (3, "options", .record .enumValueOptions)]
  | .service =>
    [(1, "name", .text), (2, "method", .record .method), (3, "options", .record .serviceOptions)]
  | .method =>
    [(1, "name", .text), (2, "input_type", .text), (3, "output_type", .text),
     (4, "options", .record .methodOptions), (5, "client_streaming", .varint),
     (6, "server_streaming", .varint)]
  | .fileOptions =>
    [(1, "java_package", .text), (8, "java_outer_classname", .text), (11, "go_package", .text),
     (36, "objc_class_prefix", .text), (37, "csharp_namespace", .text),
     (39, "swift_prefix", .text), (40, "php_class_prefix", .text), (41, "php_namespace", .text),
     (44, "php_metadata_namespace", .text), (45, "ruby_package", .text),
     (10, "java_multiple_files", .varint), (20, "java_generate_equals_and_hash", .varint),
     (27, "java_string_check_utf8", .varint), (16, "cc_generic_services", .varint),
     (17, "java_generic_services", .varint), (18, "py_generic_services", .varint),
     (42, "php_generic_services", .varint), (23, "deprecated", .varint),
     (31, "cc_enable_arenas", .varint), (9, "optimize_for", .varint), uninterpreted]
  | .messageOptions =>
    [(1, "message_set_wire_format", .varint), (2, "no_standard_descriptor_accessor", .varint),
     (3, "deprecated", .varint), (7, "map_entry", .varint), uninterpreted]
  | .fieldOptions =>
    [(1, "ctype", .varint), (2, "packed", .varint), (6, "jstype", .varint), (5, "lazy", .varint),
     (3, "deprecated", .varint), (10, "weak", .varint), uninterpreted]
  | .oneofOptions => [uninterpreted]
  | .enumOptions => [(2, "allow_alias", .varint), (3, "deprecated", .varint), uninterpreted]
  | .enumValueOptions => [(1, "deprecated", .varint), uninterpreted]
  | .serviceOptions => [(33, "deprecated", .varint), uninterpreted]
  | .methodOptions =>
    [(33, "deprecated", .varint), (34, "idempotency_level", .varint), uninterpreted]
  | .extensionRangeOptions => [uninterpreted]
  | .uninterpretedOption =>
    [(2, "name", .record .namePart), (3, "identifier_value", .text),
     (4, "positive_int_value", .varint), (5, "negative_int_value", .varint),
     (6, "double_value", .fixed64), (7, "string_value", .bytes), (8, "aggregate_value", .text)]
  | .namePart => [(1, "name_part", .text), (2, "is_extension", .varint)]
  | .sourceCodeInfo => [(1, "location", .record .location)]
  | .location =>
    [(1, "path", .varints), (2, "span", .varints), (3, "leading_comments", .text),
     (4, "trailing_comments", .text), (6, "leading_detached_comments", .text)]

/-- The grammar of a descriptor set. -/
def grammar : Grammar Kind where
  name := Kind.name
  slot kind number := kind.fields.lookup number

/-- The low 32 bits of a number as a signed number. -/
def int32 (n : Nat) : Int32 := Int32.ofNat n

/-- The declaration of a field or an extension. -/
def fieldDecl (fs : Fields) : FieldDecl where
  name := (fs.text? 1).getD ""
  number := int32 ((fs.number? 3).getD 0)
  label := ((fs.number? 4).bind fun n => FieldLabel.ofNumber? (int32 n).toInt).getD .optional
  type := ((fs.number? 5).bind fun n => FieldType.ofNumber? (int32 n).toInt).getD .double
  typeName := fs.text? 6
  extendee := (fs.text? 2).getD ""
  oneofIndex := (fs.number? 9).map int32
  jsonName := fs.text? 10
  proto3Optional := (fs.number? 17).getD 0 != 0

/-- The declaration of an enum. -/
def enumDecl (fs : Fields) : EnumDecl where
  name := (fs.text? 1).getD ""
  values := (fs.records 2).map fun v =>
    ⟨(v.text? 1).getD "", int32 ((v.number? 2).getD 0)⟩

/-- Whether a message's options mark it as the entry of a map. -/
def isMapEntry (fs : Fields) : Bool :=
  ((fs.merged 7).number? 7).getD 0 != 0

mutual

/-- The declaration of a message. -/
def messageDecl : Value → MessageDecl
  | .record fs =>
    { name := (Fields.text? 1 fs).getD ""
      fields := (Fields.records 2 fs).map fieldDecl
      nested := nestedDecls 3 fs
      enums := (Fields.records 4 fs).map enumDecl
      extensions := (Fields.records 6 fs).map fieldDecl
      oneofs := (Fields.records 8 fs).map fun o => (o.text? 1).getD ""
      isMapEntry := isMapEntry fs }
  | .number _ => default
  | .text _ => default
  | .bytes _ => default

/-- The declarations of the messages under a field number. -/
def nestedDecls (number : Nat) : List (Nat × Value) → List MessageDecl
  | [] => []
  | (n, v) :: rest =>
    if n = number then messageDecl v :: nestedDecls number rest else nestedDecls number rest

end

/-- One location of the source information. -/
def location (fs : Fields) : Location where
  path := (fs.numbers 1).map int32
  leading := fs.text? 3
  trailing := fs.text? 4

/-- The declaration of a file. -/
def fileDecl (fs : Fields) : FileDecl where
  name := (fs.text? 1).getD ""
  package := (fs.text? 2).getD ""
  messages := nestedDecls 4 fs
  enums := (fs.records 5).map enumDecl
  extensions := (fs.records 7).map fieldDecl
  locations := ((fs.merged 9).records 1).map location

end Descriptor

/-- The files that the bytes of a descriptor set declare. -/
def FileSet.decode (bs : Wire.Bytes) : Except Wire.DecodeError FileSet :=
  (Wire.decode Descriptor.grammar .fileSet bs).map fun fs =>
    ⟨(Wire.Fields.records 1 fs).map Descriptor.fileDecl⟩

end SchemaGraph

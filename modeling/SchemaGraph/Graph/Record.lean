import SchemaGraph.Graph.Element
import SchemaGraph.Json.Record

/-!
# Elements as records

The JSON form of elements and of what they are made of, and reading it back.
Entries come in a fixed order, and an element without options has no entry for
them.
-/

namespace SchemaGraph

/-- The name of a kind of data in records. -/
def DataType.name : DataType → String
  | .boolean => "Boolean"
  | .bytes => "Bytes"
  | .number => "Number"
  | .string => "String"
  | .enum => "Enum"
  | .record => "Record"
  | .array => "Array"
  | .map => "Map"
  | .union => "Union"

/-- All kinds of data. -/
def DataType.all : List DataType :=
  [.boolean, .bytes, .number, .string, .enum, .record, .array, .map, .union]

/-- The kind of data with a name. -/
def DataType.ofName? (name : String) : Option DataType :=
  DataType.all.find? fun t => t.name == name

/-- The name of a label in records. -/
def FieldLabel.name : FieldLabel → String
  | .optional => "Optional"
  | .required => "Required"
  | .repeated => "Repeated"

/-- The label with a name. -/
def FieldLabel.ofName? (name : String) : Option FieldLabel :=
  [FieldLabel.optional, .required, .repeated].find? fun l => l.name == name

/-- The kind of element with a name. -/
def ElementKind.ofName? (name : String) : Option ElementKind :=
  ElementKind.all.find? fun k => k.name == name

/-- A 32-bit number as a value. -/
def Json.ofInt32 (n : Int32) : Json := .int n.toInt

/-- The record of an option value: the name of its kind and the value. -/
def OptionValue.toJson : OptionValue → Json
  | .bool b => .object [("bool", .bool b)]
  | .int n => .object [("int", .int n.toInt)]
  | .uint n => .object [("uint", .nat n.toNat)]
  | .float x => .object [("float", .float x)]
  | .string s => .object [("string", .string s)]
  | .bytes bs => .object [("bytes", .ofBytes bs)]
  | .enum n => .object [("enum", .ofInt32 n)]
  | .message bs => .object [("message", .ofBytes bs)]

/-- The option value of a record. -/
def OptionValue.ofJson? (v : Json) : Option OptionValue := do
  let (name, content) ← v.variant?
  match name with
  | "bool" => content.bool?.map .bool
  | "int" => content.int64?.map .int
  | "uint" => content.uint64?.map .uint
  | "float" => content.float?.map .float
  | "string" => content.string?.map .string
  | "bytes" => content.bytes?.map .bytes
  | "enum" => content.int32?.map .enum
  | "message" => content.bytes?.map .message
  | _ => none

/-- The record of a custom option. -/
def CustomOption.toJson (o : CustomOption) : Json :=
  .object [("name", .string o.name), ("number", .ofInt32 o.number), ("value", o.value.toJson)]

/-- The custom option of a record. -/
def CustomOption.ofJson? (v : Json) : Option CustomOption := do
  match ← v.parts? ["name", "number", "value"] with
  | [some name, some number, some value] =>
    return ⟨← name.string?, ← number.int32?, ← OptionValue.ofJson? value⟩
  | _ => none

/-- The custom options of a record's entry, which may be missing. -/
def CustomOption.listOfJson? : Option Json → Option (List CustomOption)
  | none => some []
  | some v => do
    let items ← v.array?
    items.mapM CustomOption.ofJson?

/-- The record of what is known of an element of each kind. -/
def ElementInfo.toJson : ElementInfo → Json
  | .message m =>
    .object [("Message", .object
      [("fields", .strings m.fields), ("nested_messages", .strings m.nestedMessages),
       ("nested_enums", .strings m.nestedEnums), ("is_map_entry", .bool m.isMapEntry)])]
  | .field f =>
    .object [("Field", .object
      [("number", .ofInt32 f.number), ("label", .string f.label.name),
       ("native_type", .string f.nativeType), ("is_message_type", .bool f.isMessageType),
       ("one_of", .ofOption f.oneOf), ("json_name", .ofOption f.jsonName)])]
  | .oneOf fields => .object [("OneOf", .object [("fields", .strings fields)])]
  | .enum values =>
    .object [("Enum", .object [("values", .array (values.map fun v =>
      .object [("name", .string v.name), ("number", .ofInt32 v.number)]))])]

/-- The enum value of a record. -/
def EnumValue.ofJson? (v : Json) : Option EnumValue := do
  match ← v.parts? ["name", "number"] with
  | [some name, some number] => return ⟨← name.string?, ← number.int32?⟩
  | _ => none

/-- What a record says of an element of some kind. -/
def ElementInfo.ofJson? (v : Json) : Option ElementInfo := do
  let (name, content) ← v.variant?
  match name with
  | "Message" =>
    match ← content.named? ["fields", "nested_messages", "nested_enums", "is_map_entry"] with
    | [some fields, some messages, some enums, some isMapEntry] =>
      return .message ⟨← fields.strings?, ← messages.strings?, ← enums.strings?, ← isMapEntry.bool?⟩
    | _ => none
  | "Field" =>
    match ← content.named?
      ["number", "label", "native_type", "is_message_type", "one_of", "json_name"] with
    | [some number, some label, some nativeType, some isMessageType, group, jsonName] =>
      return .field
        ⟨← number.int32?, ← label.tag?.bind FieldLabel.ofName?, ← nativeType.string?,
         ← isMessageType.bool?, ← Json.optionalString? group, ← Json.optionalString? jsonName⟩
    | _ => none
  | "OneOf" =>
    match ← content.named? ["fields"] with
    | [some fields] => return .oneOf (← fields.strings?)
    | _ => none
  | "Enum" =>
    match ← content.named? ["values"] with
    | [some values] => return .enum (← (← values.array?).mapM EnumValue.ofJson?)
    | _ => none
  | _ => none

/-- The record of an element. -/
def Element.toJson (e : Element) : Json :=
  .object
    ([("full_name", .string e.fullName), ("name", .string e.name), ("file", .string e.file),
      ("package", .string e.package), ("parent", .ofOption e.parent),
      ("path_type", .string e.pathType), ("data_type", .string e.dataType.name),
      ("comment", .string e.comment), ("major_version", .ofInt32 e.majorVersion)] ++
     (if e.options = [] then [] else [("options", .array (e.options.map CustomOption.toJson))]) ++
     [("data", e.info.toJson)])

/-- The element of a record. -/
def Element.ofJson? (v : Json) : Option Element := do
  match ← v.parts?
    ["full_name", "name", "file", "package", "parent", "path_type", "data_type", "comment",
     "major_version", "options", "data"] with
  | [some fullName, some name, some file, some package, parent, some pathType, some dataType,
     some comment, some majorVersion, options, some info] =>
    return {
      fullName := ← fullName.string?
      name := ← name.string?
      file := ← file.string?
      package := ← package.string?
      parent := ← Json.optionalString? parent
      pathType := ← pathType.string?
      dataType := ← dataType.tag?.bind DataType.ofName?
      comment := ← comment.string?
      majorVersion := ← majorVersion.int32?
      options := ← CustomOption.listOfJson? options
      info := ← ElementInfo.ofJson? info }
  | _ => none

end SchemaGraph

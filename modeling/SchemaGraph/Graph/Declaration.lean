import SchemaGraph.Descriptor.Comment
import SchemaGraph.Descriptor.Version
import SchemaGraph.Graph.Element

/-!
# The elements a descriptor set declares

Every declaration as the element that will stand for it, in the order in which
the graph takes them up: the enums of a file, then its messages; a message
before the messages and enums inside it, and these before its fields.  A field
comes with the oneof group it belongs to, if any; the group that the compiler
adds for an explicitly optional field is not counted.

Whether a message is the entry of a map is known for the whole set before the
first element is made, because a map field may come before its entry.
-/

namespace SchemaGraph

/-- A field under its declared name, and the oneof group it belongs to. -/
structure Member where
  name : String
  field : Element
  group : Option Element
  deriving DecidableEq

/-- One step of taking up a schema: a message or an enum, or the fields of the
message with a full name. -/
inductive Declaration where
  | element (e : Element)
  | members (message : String) (members : List Member)
  deriving DecidableEq

/-- What the declarations of one file have in common. -/
structure Scope where
  file : FileDecl
  mapEntries : List String

namespace Scope

/-- The element for a declaration of the file at a path. -/
def element (s : Scope) (fullName : String) (parent : Option String) (pathType : String)
    (dataType : DataType) (path : List Int32) (info : ElementInfo) : Element :=
  (Element.ofName fullName s.file.name s.file.package parent pathType dataType
    s.file.majorVersion info).withComment (s.file.commentAt path)

end Scope

/-- The path type of a simple type tag. -/
def typeTag (tag : String) : String := "[type=" ++ tag ++ "]"

/-- The type tag of a named message: its full name with underscores for dots. -/
def messageTag (fullName : String) : String := Text.replace '.' '_' fullName

/-- The path type of an enum. -/
def enumTag : String := typeTag "enum"

/-- The path type of a oneof group. -/
def unionTag : String := typeTag "union"

/-- The type tag of a field's type. -/
def FieldDecl.tag (f : FieldDecl) : String :=
  match f.type with
  | .double => "double"
  | .float => "float"
  | .int64 | .uint64 | .fixed64 | .sfixed64 | .sint64 => "long"
  | .int32 | .uint32 | .fixed32 | .sfixed32 | .sint32 => "int"
  | .bool => "boolean"
  | .string => "string"
  | .bytes => "bytes"
  | .enum => "enum"
  | .message | .group => messageTag f.reference

/-- The kind of data of a single value of a type. -/
def FieldType.dataType : FieldType → DataType
  | .bool => .boolean
  | .string => .string
  | .bytes => .bytes
  | .enum => .enum
  | .message | .group => .record
  | _ => .number

/-- The declared type of a field: the name of a message or an enum, or the
keyword of a scalar. -/
def FieldDecl.nativeType (f : FieldDecl) : String :=
  if f.type.isNamed then f.reference else f.type.keyword

/-- The declared type of a message-typed field is the name that it refers to. -/
theorem FieldDecl.nativeType_of_isMessage {f : FieldDecl} (h : f.type.isMessage = true) :
    f.nativeType = f.reference := by
  have hnamed : f.type.isNamed = true := by
    cases htype : f.type <;> first | rfl | exact absurd (htype ▸ h) (by decide)
  rw [nativeType, if_pos hnamed]

/-- Whether a field is a map: repeated, and typed as the entry of a map. -/
def FieldDecl.isMap (mapEntries : List String) (f : FieldDecl) : Bool :=
  f.label == .repeated && f.type.isMessage && mapEntries.contains f.nativeType

/-- The path type and the kind of data of a field. -/
def FieldDecl.shape (mapEntries : List String) (f : FieldDecl) : String × DataType :=
  if f.isMap mapEntries then (typeTag "map" ++ "." ++ typeTag f.tag, .map)
  else if f.label = .repeated then (typeTag "array" ++ "." ++ typeTag f.tag, .array)
  else (typeTag f.tag, f.type.dataType)

/-- The oneof group of a field: its position among the groups of the message,
and its name.  A position out of range names no group. -/
def FieldDecl.group? (f : FieldDecl) (oneofs : List String) : Option (Nat × String) :=
  if f.proto3Optional then none
  else
    match f.oneofIndex with
    | none => none
    | some i =>
      if i.toInt < 0 then none
      else (oneofs[i.toInt.toNat]?).map fun name => (i.toInt.toNat, name)

/-- The path of a declaration inside the one at `path`. -/
def childPath (path : List Int32) (list : Int32) (position : Nat) : List Int32 :=
  path ++ [list, Int32.ofNat position]

/-- The element for a field of a message. -/
def FieldDecl.element (s : Scope) (message : String) (group : Option String) (path : List Int32)
    (f : FieldDecl) : Element :=
  s.element (qualify message f.name) (some message) (f.shape s.mapEntries).1
    (f.shape s.mapEntries).2 path
    (.field
      { number := f.number
        label := f.label
        nativeType := f.nativeType
        isMessageType := f.type.isMessage
        oneOf := group
        jsonName := f.jsonName })

/-- The element for a oneof group of a message, without members. -/
def groupElement (s : Scope) (message : String) (path : List Int32) (position : Nat)
    (name : String) : Element :=
  s.element (qualify message name) (some message) unionTag .union
    (childPath path messageOneofs position) (.oneOf [])

/-- A field of a message with its group. -/
def FieldDecl.member (s : Scope) (message : String) (oneofs : List String) (path : List Int32)
    (position : Nat) (f : FieldDecl) : Member :=
  let group := f.group? oneofs
  { name := f.name
    field := f.element s message (group.map (·.2)) (childPath path messageFields position)
    group := group.map fun (i, name) => groupElement s message path i name }

/-- The element for an enum in a scope. -/
def EnumDecl.element (s : Scope) (parent : Option String) (path : List Int32) (e : EnumDecl) :
    Element :=
  s.element (qualify (parent.getD s.file.package) e.name) parent enumTag .enum path
    (.enum e.values)

/-- The declarations of enums listed under a field number. -/
def enumDeclarations (s : Scope) (parent : Option String) (path : List Int32) (list : Int32)
    (enums : List EnumDecl) : List Declaration :=
  enums.zipIdx.map fun (e, i) => .element (e.element s parent (childPath path list i))

/-- The element for a message with a full name. -/
def MessageDecl.element (s : Scope) (fullName : String) (parent : Option String)
    (path : List Int32) (m : MessageDecl) : Element :=
  s.element fullName parent (typeTag (messageTag fullName)) .record path
    (.message
      { fields := m.fields.map (·.name)
        nestedMessages := m.nested.map fun n => qualify fullName n.name
        nestedEnums := m.enums.map fun e => qualify fullName e.name
        isMapEntry := s.mapEntries.contains fullName })

/-- The fields of a message with their groups. -/
def MessageDecl.members (s : Scope) (fullName : String) (path : List Int32) (m : MessageDecl) :
    List Member :=
  m.fields.zipIdx.map fun (f, i) => f.member s fullName m.oneofs path i

mutual

/-- The declarations of a message and of everything inside it. -/
def MessageDecl.declarations (s : Scope) (parent : Option String) (path : List Int32) :
    MessageDecl → List Declaration
  | ⟨name, fields, nested, enums, extensions, oneofs, isMapEntry⟩ =>
    let m : MessageDecl := ⟨name, fields, nested, enums, extensions, oneofs, isMapEntry⟩
    let fullName := qualify (parent.getD s.file.package) name
    .element (m.element s fullName parent path) ::
      (nestedDeclarations s (some fullName) path messageNested 0 nested ++
        enumDeclarations s (some fullName) path messageEnums enums ++
        [.members fullName (m.members s fullName path)])

/-- The declarations of messages listed under a field number, from a position
on. -/
def nestedDeclarations (s : Scope) (parent : Option String) (path : List Int32) (list : Int32)
    (position : Nat) : List MessageDecl → List Declaration
  | [] => []
  | m :: rest =>
    m.declarations s parent (childPath path list position) ++
      nestedDeclarations s parent path list (position + 1) rest

end

/-- The declarations of a file. -/
def FileDecl.declarations (mapEntries : List String) (file : FileDecl) : List Declaration :=
  let s : Scope := ⟨file, mapEntries⟩
  enumDeclarations s none [] fileEnums file.enums ++
    nestedDeclarations s none [] fileMessages 0 file.messages

mutual

/-- The full names of map entries among a message of a scope and the messages
inside it. -/
def MessageDecl.mapEntries (scope : String) : MessageDecl → List String
  | ⟨name, _, nested, _, _, _, isMapEntry⟩ =>
    (if isMapEntry then [qualify scope name] else []) ++
      nestedMapEntries (qualify scope name) nested

/-- The full names of map entries among several messages of a scope. -/
def nestedMapEntries (scope : String) : List MessageDecl → List String
  | [] => []
  | m :: rest => m.mapEntries scope ++ nestedMapEntries scope rest

end

/-- The full names of the map entries of a set. -/
def FileSet.mapEntries (set : FileSet) : List String :=
  set.files.flatMap fun file => nestedMapEntries file.package file.messages

/-- The declarations of a set, in order. -/
def FileSet.declarations (set : FileSet) : List Declaration :=
  set.files.flatMap (FileDecl.declarations set.mapEntries)

end SchemaGraph

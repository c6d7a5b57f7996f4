import SchemaGraph.Text.Segment

/-!
# Schema declarations

What a descriptor set declares, reduced to what the graph is built from: files
with their messages, enums and extensions, messages with fields, oneof groups
and nested declarations.  A name that is not given is the empty name; a type
or a label that is not given, or not known, is the first of its kind.

Full names join a scope and a simple name by a dot.
-/

namespace SchemaGraph

/-- The declared type of a field. -/
inductive FieldType where
  | double
  | float
  | int64
  | uint64
  | int32
  | fixed64
  | fixed32
  | bool
  | string
  | group
  | message
  | bytes
  | uint32
  | enum
  | sfixed32
  | sfixed64
  | sint32
  | sint64
  deriving DecidableEq, Repr, Inhabited

/-- The type that a descriptor writes as a number. -/
def FieldType.ofNumber? (n : Int) : Option FieldType :=
  match n with
  | 1 => some .double
  | 2 => some .float
  | 3 => some .int64
  | 4 => some .uint64
  | 5 => some .int32
  | 6 => some .fixed64
  | 7 => some .fixed32
  | 8 => some .bool
  | 9 => some .string
  | 10 => some .group
  | 11 => some .message
  | 12 => some .bytes
  | 13 => some .uint32
  | 14 => some .enum
  | 15 => some .sfixed32
  | 16 => some .sfixed64
  | 17 => some .sint32
  | 18 => some .sint64
  | _ => none

/-- The keyword of a type in schema text; groups, messages and enums have the
keyword of their declaration. -/
def FieldType.keyword : FieldType → String
  | .double => "double"
  | .float => "float"
  | .int64 => "int64"
  | .uint64 => "uint64"
  | .int32 => "int32"
  | .fixed64 => "fixed64"
  | .fixed32 => "fixed32"
  | .bool => "bool"
  | .string => "string"
  | .group => "group"
  | .message => "message"
  | .bytes => "bytes"
  | .uint32 => "uint32"
  | .enum => "enum"
  | .sfixed32 => "sfixed32"
  | .sfixed64 => "sfixed64"
  | .sint32 => "sint32"
  | .sint64 => "sint64"

/-- Whether a field of the type holds a message. -/
def FieldType.isMessage : FieldType → Bool
  | .message => true
  | .group => true
  | _ => false

/-- Whether a type is named, so that the field says which message or enum. -/
def FieldType.isNamed : FieldType → Bool
  | .message => true
  | .group => true
  | .enum => true
  | _ => false

/-- How many values a field has. -/
inductive FieldLabel where
  | optional
  | required
  | repeated
  deriving DecidableEq, Repr, Inhabited

/-- The label that a descriptor writes as a number. -/
def FieldLabel.ofNumber? (n : Int) : Option FieldLabel :=
  match n with
  | 1 => some .optional
  | 2 => some .required
  | 3 => some .repeated
  | _ => none

/-- A field or an extension. -/
structure FieldDecl where
  name : String := ""
  number : Int32 := 0
  label : FieldLabel := .optional
  type : FieldType := .double
  typeName : Option String := none
  extendee : String := ""
  oneofIndex : Option Int32 := none
  jsonName : Option String := none
  proto3Optional : Bool := false
  deriving DecidableEq, Repr, Inhabited

/-- A named number of an enum. -/
structure EnumValue where
  name : String
  number : Int32
  deriving DecidableEq, Repr, Inhabited

/-- An enum. -/
structure EnumDecl where
  name : String := ""
  values : List EnumValue := []
  deriving DecidableEq, Repr, Inhabited

/-- A message with all that is declared in it. -/
structure MessageDecl where
  name : String
  fields : List FieldDecl
  nested : List MessageDecl
  enums : List EnumDecl
  extensions : List FieldDecl
  oneofs : List String
  isMapEntry : Bool

/-- A message that declares nothing. -/
instance : Inhabited MessageDecl := ⟨⟨"", [], [], [], [], [], false⟩⟩

/-- Where in a file a comment belongs, and the comment. -/
structure Location where
  path : List Int32
  leading : Option String
  trailing : Option String
  deriving DecidableEq, Repr, Inhabited

/-- A schema file. -/
structure FileDecl where
  name : String := ""
  package : String := ""
  messages : List MessageDecl := []
  enums : List EnumDecl := []
  extensions : List FieldDecl := []
  locations : List Location := []
  deriving Inhabited

/-- The files of a descriptor set, in order. -/
structure FileSet where
  files : List FileDecl := []
  deriving Inhabited

/-- Joins a scope, a package or a message, and a simple name. -/
def qualify (scope name : String) : String :=
  if scope = "" then name else scope ++ "." ++ name

/-- A type reference without the dot in front of a full name. -/
def nativeTypeName (typeName : String) : String :=
  Text.dropLeading '.' typeName

/-- The name that a field of a named type refers to. -/
def FieldDecl.reference (f : FieldDecl) : String :=
  nativeTypeName (f.typeName.getD "")

/-- The schema file that declares the well-known wrapper messages. -/
def wrappersFile : String := "google/protobuf/wrappers.proto"

/-- Field numbers under which a file and a message list their declarations;
the path of a declaration alternates them with positions. -/
def fileMessages : Int32 := 4
def fileEnums : Int32 := 5
def messageFields : Int32 := 2
def messageNested : Int32 := 3
def messageEnums : Int32 := 4
def messageOneofs : Int32 := 8

end SchemaGraph

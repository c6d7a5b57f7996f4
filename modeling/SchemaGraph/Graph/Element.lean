import SchemaGraph.Descriptor.Basic
import SchemaGraph.Option.Value

/-!
# Schema elements

The vertices of a schema graph: messages, fields, oneof groups and enums.  An
element is identified by its kind and full name; everything else about it may
differ between two elements that count as the same.
-/

namespace SchemaGraph

/-- What an element is. -/
inductive ElementKind where
  | message
  | field
  | oneOf
  | enum
  deriving DecidableEq, Repr

/-- The name of a kind. -/
def ElementKind.name : ElementKind → String
  | .message => "Message"
  | .field => "Field"
  | .oneOf => "OneOf"
  | .enum => "Enum"

/-- All kinds, in order. -/
def ElementKind.all : List ElementKind := [.message, .field, .oneOf, .enum]

/-- The place of a kind in the order of kinds. -/
def ElementKind.rank : ElementKind → Nat
  | .message => 0
  | .field => 1
  | .oneOf => 2
  | .enum => 3

/-- The identity of an element. -/
structure ElementKey where
  kind : ElementKind
  fullName : String
  deriving DecidableEq, Repr

namespace ElementKey

/-- The identity of a message. -/
def message (fullName : String) : ElementKey := ⟨.message, fullName⟩

/-- The identity of an enum. -/
def enum (fullName : String) : ElementKey := ⟨.enum, fullName⟩

/-- A key as text: kind, colon, full name. -/
def text (k : ElementKey) : String := k.kind.name ++ ":" ++ k.fullName

/-- Keys are ordered by kind, then by name. -/
def before (a b : ElementKey) : Bool :=
  if a.kind = b.kind then decide (a.fullName < b.fullName)
  else decide (a.kind.rank < b.kind.rank)

end ElementKey

/-- The kind of data an element holds, as consumers of a schema see it. -/
inductive DataType where
  | boolean
  | bytes
  | number
  | string
  | enum
  | record
  | array
  | map
  | union
  deriving DecidableEq, Repr

/-- The word for a kind of data. -/
def DataType.word : DataType → String
  | .boolean => "boolean"
  | .bytes => "bytes"
  | .number => "number"
  | .string => "string"
  | .enum => "enum"
  | .record => "record"
  | .array => "array"
  | .map => "map"
  | .union => "union"

/-- What is known of a message beyond what all elements have. -/
structure MessageInfo where
  fields : List String
  nestedMessages : List String
  nestedEnums : List String
  isMapEntry : Bool
  deriving DecidableEq, Repr

/-- What is known of a field beyond what all elements have. -/
structure FieldInfo where
  number : Int32
  label : FieldLabel
  nativeType : String
  isMessageType : Bool
  oneOf : Option String
  jsonName : Option String
  deriving DecidableEq, Repr

/-- What is known of an element of each kind. -/
inductive ElementInfo where
  | message (info : MessageInfo)
  | field (info : FieldInfo)
  | oneOf (fields : List String)
  | enum (values : List EnumValue)
  deriving DecidableEq, Repr

/-- The kind of element that is described. -/
def ElementInfo.kind : ElementInfo → ElementKind
  | .message _ => .message
  | .field _ => .field
  | .oneOf _ => .oneOf
  | .enum _ => .enum

/-- An element of a schema. -/
structure Element where
  fullName : String
  name : String
  file : String
  package : String
  parent : Option String
  pathType : String
  dataType : DataType
  comment : String
  majorVersion : Int32
  options : List CustomOption
  info : ElementInfo
  deriving DecidableEq, Repr

namespace Element

/-- An element under its full name, whose last segment is its simple name, with
no comment and no options. -/
def ofName (fullName file package : String) (parent : Option String) (pathType : String)
    (dataType : DataType) (majorVersion : Int32) (info : ElementInfo) : Element where
  fullName := fullName
  name := Text.lastSegment '.' fullName
  file := file
  package := package
  parent := parent
  pathType := pathType
  dataType := dataType
  comment := ""
  majorVersion := majorVersion
  options := []
  info := info

/-- The element with a comment. -/
def withComment (e : Element) (comment : String) : Element := { e with comment }

/-- The kind of an element. -/
def kind (e : Element) : ElementKind := e.info.kind

/-- The identity of an element. -/
def key (e : Element) : ElementKey := ⟨e.kind, e.fullName⟩

/-- Whether an element is a field whose declared type is a message. -/
def isMessageType (e : Element) : Bool :=
  match e.info with
  | .field info => info.isMessageType
  | _ => false

/-- The declared type of a field; other elements have none. -/
def nativeType (e : Element) : Option String :=
  match e.info with
  | .field info => some info.nativeType
  | _ => none

/-- The first value of a custom option. -/
def option (e : Element) (name : String) : Option OptionValue :=
  (e.options.find? fun o => o.name == name).map (·.value)

/-- The element with other options. -/
def withOptions (e : Element) (options : List CustomOption) : Element :=
  { e with options }

/-- The oneof group with one more member; other elements stay as they are. -/
def addMember (member : String) (e : Element) : Element :=
  match e.info with
  | .oneOf fields => { e with info := .oneOf (fields ++ [member]) }
  | _ => e

/-- The field typed as a primitive one: its path and data types come from the
primitive and it no longer counts as message-typed.  The declared type stays. -/
def withPrimitive (e primitive : Element) : Element :=
  { e with
    pathType := primitive.pathType
    dataType := primitive.dataType
    info :=
      match e.info with
      | .field info => .field { info with isMessageType := false }
      | info => info }

theorem key_withOptions (e : Element) (options : List CustomOption) :
    (e.withOptions options).key = e.key := rfl

theorem key_addMember (e : Element) (member : String) : (e.addMember member).key = e.key := by
  unfold addMember
  split
  · next fields h => simp [key, kind, h, ElementInfo.kind]
  · rfl

theorem key_withPrimitive (e primitive : Element) :
    (e.withPrimitive primitive).key = e.key := by
  obtain ⟨_, _, _, _, _, _, _, _, _, _, info⟩ := e
  cases info <;> rfl

end Element

/-- The relation that an edge records. -/
inductive EdgeKind where
  /-- A step along a field path. -/
  | field
  /-- The declared type of a field. -/
  | typeRef
  deriving DecidableEq, Repr

/-- The name of a kind of edge. -/
def EdgeKind.name : EdgeKind → String
  | .field => "Field"
  | .typeRef => "TypeRef"

/-- What an edge is labelled with: its kind, the path type of its target, and
whether it enters another message. -/
structure Edge where
  kind : EdgeKind
  type : String
  isMessageType : Bool
  deriving DecidableEq, Repr

/-- The step into an element. -/
def Edge.into (e : Element) : Edge := ⟨.field, e.pathType, e.isMessageType⟩

end SchemaGraph

import SchemaGraph.Graph.Visitor
import SchemaGraph.Graph.Record

/-!
# Schema fields

The flattened schema of the root message: one record for every field path from
the root to a field or a oneof group.  A field may be null unless it is
required, a oneof group always.
-/

namespace SchemaGraph

/-- One field of the flattened schema. -/
structure SchemaField where
  fieldPath : String
  nativeType : String
  dataType : DataType
  nullable : Bool
  description : String
  options : List CustomOption
  deriving DecidableEq, Repr

namespace SchemaField

/-- The records of a vertex, one for each of its field paths. -/
def records (visit : Visit) (id : VertexId) (e : Element) (nativeType : String)
    (nullable : Bool) : List SchemaField :=
  (visit.fieldPaths id).map fun fieldPath =>
    { fieldPath, nativeType, dataType := e.dataType, nullable, description := e.comment
      options := e.options }

/-- Whether an element may be null. -/
def isNullable (e : Element) : Bool :=
  match e.info with
  | .field info => info.label != .required
  | _ => true

/-- The visitor that emits the records. -/
def visitor : Visitor SchemaField where
  field visit id e := records visit id e (e.nativeType.getD "") (isNullable e)
  oneOf visit id e := records visit id e "oneof" true

/-- The flattened schema of a graph. -/
def all (g : RootedGraph) : List SchemaField := Visit.run { graph := g } [visitor]

/-- The JSON record; a description or options that are empty have no entry. -/
def toJson (f : SchemaField) : Json :=
  .object
    ([("field_path", .string f.fieldPath), ("native_type", .string f.nativeType),
      ("data_type", .string f.dataType.name), ("nullable", .bool f.nullable)] ++
     (if f.description = "" then [] else [("description", .string f.description)]) ++
     (if f.options = [] then [] else [("options", .array (f.options.map CustomOption.toJson))]))

/-- The schema field of a JSON record. -/
def ofJson? (v : Json) : Option SchemaField := do
  match ← v.parts?
    ["field_path", "native_type", "data_type", "nullable", "description", "options"] with
  | [some fieldPath, some nativeType, some dataType, some nullable, description, options] =>
    return {
      fieldPath := ← fieldPath.string?
      nativeType := ← nativeType.string?
      dataType := ← dataType.tag?.bind DataType.ofName?
      nullable := ← nullable.bool?
      description := ← Json.stringOrEmpty? description
      options := ← CustomOption.listOfJson? options }
  | _ => none

end SchemaField

end SchemaGraph

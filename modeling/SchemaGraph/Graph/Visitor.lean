import SchemaGraph.Graph.Rooted

/-!
# Visitors

A visitor says what it makes of a graph as a whole and of each element by its
kind; what it does not care about gives nothing.  A visit asks all visitors
about the graph first, and then all of them about each element in turn, by
ascending number.

Field paths are rendered from the root: the version of the notation, the path
type of the root, and for every step its path type and the name of its target.
-/

namespace SchemaGraph

/-- A graph that is visited, and the name of the data set that it describes. -/
structure Visit where
  graph : RootedGraph
  dataset : Option String := none

/-- What a consumer makes of a graph and its elements. -/
structure Visitor (α : Type) where
  graph : Visit → List α := fun _ => []
  message : Visit → VertexId → Element → List α := fun _ _ _ => []
  field : Visit → VertexId → Element → List α := fun _ _ _ => []
  oneOf : Visit → VertexId → Element → List α := fun _ _ _ => []
  enum : Visit → VertexId → Element → List α := fun _ _ _ => []

/-- What a visitor makes of an element. -/
def Visitor.element {α : Type} (v : Visitor α) (visit : Visit) (id : VertexId) (e : Element) :
    List α :=
  match e.kind with
  | .message => v.message visit id e
  | .field => v.field visit id e
  | .oneOf => v.oneOf visit id e
  | .enum => v.enum visit id e

namespace Visit

/-- What visitors make of the graph. -/
def run {α : Type} (visit : Visit) (visitors : List (Visitor α)) : List α :=
  visitors.flatMap (fun v => v.graph visit) ++
    visit.graph.store.elements.flatMap fun (id, e) =>
      visitors.flatMap fun v => v.element visit id e

/-- The version of the field path notation. -/
def pathVersion : String := "[version=2.0]"

/-- What one link adds to a field path. -/
def pathStep (visit : Visit) (id : EdgeId) : List String :=
  match visit.graph.store.link? id with
  | none => []
  | some l =>
    match visit.graph.store.element? l.target with
    | none => [l.edge.type]
    | some e => [l.edge.type, e.name]

/-- A path from the root as a field path. -/
def fieldPath (visit : Visit) (p : Path) : String :=
  Text.join "." (pathVersion :: visit.graph.root.pathType :: p.links.flatMap visit.pathStep)

/-- The field paths from the root to a vertex. -/
def fieldPaths (visit : Visit) (id : VertexId) : List String :=
  (visit.graph.store.fieldPaths visit.graph.rootId id).map visit.fieldPath

end Visit

end SchemaGraph

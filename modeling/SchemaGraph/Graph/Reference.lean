import SchemaGraph.Graph.Draft

/-!
# References between declarations

Once all elements of a set are taken up, every message-typed field gets a step
to each vertex that its message owns and an edge to the message itself, and
every enum-typed field an edge to its enum.  A field whose message is not in
the set gets no edge and is reported.

A field is enum-typed if its path type ends in the enum tag.
-/

namespace SchemaGraph

namespace Draft

/-- Adds a value to a list unless it is there. -/
def addNew (seen : List VertexId) (id : VertexId) : List VertexId :=
  if seen.contains id then seen else seen ++ [id]

/-- The vertices that a message-typed step enters, in the order in which their
first such edges were numbered. -/
def referencing (g : Store) : List VertexId :=
  ((g.linksById.filter fun l => l.edge.kind == .field && l.edge.isMessageType).map
    Link.target).foldl addNew []

/-- A message-typed field whose message is not in the set. -/
structure Unresolved where
  field : String
  typeName : String
  deriving DecidableEq, Repr

/-- The steps from a field to what its message owns. -/
def steps (d : Draft) (message : String) : List (VertexId × Edge) :=
  (d.ownedBy message).filterMap fun id => (d.store.element? id).map fun e => (id, Edge.into e)

/-- The edges of one field to its message and to what the message owns.  The
ownership map is the one of the draft, whatever has been added since. -/
def resolve (d : Draft) (g : Store) (field : VertexId) : Store :=
  match (g.element? field).bind Element.nativeType with
  | none => g
  | some type =>
    match g.find? (.message type) with
    | none => g
    | some message =>
      -- The steps come before the edge to the message, and are numbered first.
      let g := (d.steps type).foldl (fun g step => (g.addLink field step.1 step.2).2) g
      match g.element? message with
      | none => g
      | some e => (g.addLink field message ⟨.typeRef, e.pathType, true⟩).2

/-- The report on one field, if its message is not in the set. -/
def unresolved? (g : Store) (field : VertexId) : Option Unresolved :=
  match (g.element? field) with
  | none => none
  | some e =>
    match e.nativeType with
    | none => none
    | some type =>
      if (g.find? (.message type)).isNone then some ⟨e.fullName, type⟩ else none

/-- The fields whose message is not in the set. -/
def unresolved (d : Draft) : List Unresolved :=
  (referencing d.store).filterMap (unresolved? d.store)

/-- The enum that an element refers to, and the label of the edge. -/
def enumReference (g : Store) (e : Element) : Option (VertexId × Edge) :=
  if e.kind = .field ∧ Text.endsWith e.pathType enumTag then
    match e.nativeType with
    | none => none
    | some type =>
      match g.find? (.enum type) with
      | none => none
      | some id => (g.element? id).map fun target => (id, ⟨.typeRef, target.pathType, false⟩)
  else none

/-- Adds the edge from an element to its enum. -/
def linkEnum (g : Store) (entry : VertexId × Element) : Store :=
  match enumReference g entry.2 with
  | none => g
  | some (id, edge) => (g.addLink entry.1 id edge).2

/-- The draft with all references resolved. -/
def resolveAll (d : Draft) : Draft :=
  let g := (referencing d.store).foldl d.resolve d.store
  { d with store := g.elements.foldl linkEnum g }

/-- The draft of a descriptor set with all references resolved. -/
def ofSet (set : FileSet) : Draft :=
  (ofDeclarations set.declarations).resolveAll

end Draft

end SchemaGraph

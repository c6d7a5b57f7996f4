import SchemaGraph.Graph.Patch

/-!
# Flattening wrapper messages

A field typed as one of the messages of the wrappers file becomes a field
typed as the primitive that the message wraps, with the same identity, and
every edge into the old field leads to the new one.  Nothing that the wrappers
file declares stays.

The changes are planned on the store as it is and made in one patch.
-/

namespace SchemaGraph

namespace Store

/-- Whether an element is declared in the wrappers file. -/
def isWrapped (e : Element) : Bool := e.file == wrappersFile

/-- The wrapper messages. -/
def wrappers (g : Store) : List VertexId :=
  (g.elements.filter fun entry => entry.2.kind == .message && isWrapped entry.2).map (·.1)

/-- Whether a number is that of a field. -/
def isField (g : Store) (id : VertexId) : Bool :=
  match g.element? id with
  | some e => e.kind == .field
  | none => false

/-- The fields that steps from a wrapper message enter, ascending. -/
def primitives (g : Store) : List VertexId :=
  Ordered.natSet ((g.wrappers.flatMap fun w =>
    (g.outgoing w).filter fun l => l.edge.kind == .field).map Link.target |>.filter g.isField)

/-- The fields with an edge into a primitive, ascending. -/
def originsOf (g : Store) (primitive : VertexId) : List VertexId :=
  Ordered.natSet (((g.incoming primitive).map Link.source).filter fun source =>
    g.isField source && !g.wrappers.contains source)

/-- Also replaces a field by one typed as a primitive. -/
def planOrigin (g : Store) (primitive : Element) (p : Patch) (origin : VertexId) : Patch :=
  match g.element? origin with
  | none => p
  | some e =>
    -- The replacement has no number yet, so the links into it are named by identity.
    let replacement := e.withPrimitive primitive
    let p := (g.incoming origin).foldl (fun p l =>
      let p := p.removeLink l.id
      match g.element? l.source with
      | none => p
      | some source =>
        p.addLink ⟨source.key, replacement.key, ⟨.field, primitive.pathType, false⟩⟩)
      (p.removeElement origin)
    p.addElement replacement

/-- Also cuts a primitive off, and replaces the fields that lead to it. -/
def planPrimitive (g : Store) (p : Patch) (primitive : VertexId) : Patch :=
  match g.element? primitive with
  | none => p
  | some e =>
    let p := (g.incoming primitive).foldl (fun p l => p.removeLink l.id) p
    (g.originsOf primitive).foldl (g.planOrigin e) p

/-- The removal of everything declared in the wrappers file. -/
def planRemovals (g : Store) : Patch :=
  (g.elements.filter fun entry => isWrapped entry.2).foldl
    (fun p entry => p.removeElement entry.1) {}

/-- The patch that flattens the wrapper messages. -/
def planFlattening (g : Store) : Patch :=
  g.primitives.foldl g.planPrimitive g.planRemovals

/-- The store with wrapper messages flattened. -/
def flatten (g : Store) : Store := g.apply g.planFlattening

end Store

end SchemaGraph

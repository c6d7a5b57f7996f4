import SchemaGraph.Graph.Declaration
import SchemaGraph.Graph.Store
import SchemaGraph.Option.Decoder
import SchemaGraph.Option.Encoded

/-!
# Drafts

A draft is a graph under construction: the store, and for every message the
vertices it directly owns, which are its fields outside oneof groups and its
groups.  Declarations are taken up one after the other.  An element whose
identity is taken is not added again, but the edges of its declaration are.

Custom options are attached to the elements of a draft by identity.
-/

namespace SchemaGraph

/-- A graph under construction. -/
structure Draft where
  store : Store := {}
  owned : List (String × List VertexId) := []

namespace Draft

/-- The vertices that the message with a full name directly owns, by its last
declaration. -/
def ownedBy (d : Draft) (message : String) : List VertexId :=
  (d.owned.lookup message).getD []

/-- The vertex of a oneof group of the message at `owner`.  It is added, with
the edge from the message, when the group's first member comes. -/
def enterGroup (g : Store) (owner : VertexId) (group : Element) : VertexId × Store :=
  match g.find? group.key with
  | some id => (id, g)
  | none =>
    let (id, g) := g.addElement group
    (id, (g.addLink owner id ⟨.field, group.pathType, false⟩).2)

/-- Takes up one field of the message at `owner`, given what the message owns so
far. -/
def addMember (owner : VertexId) (state : Store × List VertexId) (m : Member) :
    Store × List VertexId :=
  let (g, owned) := state
  let edge := Edge.into m.field
  let (field, g) := g.addElement m.field
  match m.group with
  | none => ((g.addLink owner field edge).2, owned ++ [field])
  | some group =>
    -- The message owns the group, however many members the group gets.
    let (id, g) := enterGroup g owner group
    let g := g.update id (Element.addMember m.name)
    let g := (g.addLink id field edge).2
    (g, if owned.contains id then owned else owned ++ [id])

/-- Takes up the fields of the message at `owner`: the store with them, and the
vertices the message owns. -/
def addMembers (g : Store) (owner : VertexId) (members : List Member) : Store × List VertexId :=
  members.foldl (addMember owner) (g, [])

/-- Takes up one declaration. -/
def declare (d : Draft) : Declaration → Draft
  | .element e => { d with store := (d.store.addElement e).2 }
  | .members message members =>
    match d.store.find? (.message message) with
    | none => d
    | some owner =>
      let (store, owned) := addMembers d.store owner members
      { store, owned := (message, owned) :: d.owned }

/-- The draft with every declaration of a set and no reference resolved. -/
def ofDeclarations (declarations : List Declaration) : Draft :=
  declarations.foldl declare {}

/-- Attaches the options that encoded entries set, in their order: the draft
with them, and how many elements received any.  Entries for no element are
passed over unread; the first one that cannot be decoded ends the run. -/
def attach (registry : Registry) : List (ElementKey × List UInt8) → Store →
    Except OptionError (Store × Nat)
  | [], g => .ok (g, 0)
  | (key, bytes) :: rest, g =>
    match g.find? key with
    | none => attach registry rest g
    | some id =>
      match CustomOption.decode registry key.kind.extendee bytes with
      | .error e => .error e
      | .ok [] => attach registry rest g
      | .ok options =>
        match attach registry rest (g.update id fun e => e.withOptions options) with
        | .error e => .error e
        | .ok (g, n) => .ok (g, n + 1)

end Draft

end SchemaGraph

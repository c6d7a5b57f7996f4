import SchemaGraph.Graph.Element
import SchemaGraph.Option.Registry
import SchemaGraph.Ordered

/-!
# The element store

A directed multigraph of elements with an index by identity.  Vertices and
edges are named by numbers.  A number whose vertex or edge is removed is kept
on a stack, and the next addition takes the number on top of the stack, or the
least number never used when the stack is empty.

Vertices are listed by ascending number.  The edges at a vertex are listed from
the most recently added to the oldest, which is the order in which they are
kept.  Removing a vertex removes its outgoing edges first, then what is left of
its incoming ones.

An element with the identity of a present one is not added again.
-/

namespace SchemaGraph

/-- The number of a vertex. -/
abbrev VertexId := Nat

/-- The number of an edge. -/
abbrev EdgeId := Nat

/-- Numbers to name things with: those given back, last one first, and the
least one never used. -/
structure IdPool where
  freed : List Nat := []
  fresh : Nat := 0
  deriving DecidableEq, Repr

namespace IdPool

/-- The number that the next addition takes. -/
def next (p : IdPool) : Nat := p.freed.headD p.fresh

/-- The pool after its next number is taken. -/
def take (p : IdPool) : IdPool :=
  match p.freed with
  | [] => { p with fresh := p.fresh + 1 }
  | _ :: rest => { p with freed := rest }

/-- The pool with a number given back. -/
def release (p : IdPool) (id : Nat) : IdPool := { p with freed := id :: p.freed }

/-- The pool with numbers given back one after the other. -/
def releaseAll (p : IdPool) (ids : List Nat) : IdPool := ids.foldl release p

end IdPool

/-- An edge between two vertices. -/
structure Link where
  id : EdgeId
  source : VertexId
  target : VertexId
  edge : Edge
  deriving DecidableEq, Repr

/-- Elements and links with the index by identity. -/
structure Store where
  elements : List (VertexId × Element) := []
  links : List Link := []
  index : List (ElementKey × VertexId) := []
  vertexIds : IdPool := {}
  edgeIds : IdPool := {}
  deriving DecidableEq

namespace Store

/-- The element with a number. -/
def element? (g : Store) (id : VertexId) : Option Element := g.elements.lookup id

/-- The number of the element with an identity. -/
def find? (g : Store) (key : ElementKey) : Option VertexId := g.index.lookup key

/-- The link with a number. -/
def link? (g : Store) (id : EdgeId) : Option Link := g.links.find? fun l => l.id == id

/-- All links by ascending number. -/
def linksById (g : Store) : List Link := Ordered.sort (fun a b => decide (a.id ≤ b.id)) g.links

/-- The links that leave a vertex, most recent first. -/
def outgoing (g : Store) (id : VertexId) : List Link := g.links.filter fun l => l.source == id

/-- The links that enter a vertex, most recent first. -/
def incoming (g : Store) (id : VertexId) : List Link := g.links.filter fun l => l.target == id

/-- The number of elements. -/
def elementCount (g : Store) : Nat := g.elements.length

/-- The number of links. -/
def linkCount (g : Store) : Nat := g.links.length

/-- Adds an element under a number that is not in use. -/
def place (id : VertexId) (e : Element) (elements : List (VertexId × Element)) :
    List (VertexId × Element) :=
  Ordered.insert (fun a b => decide (a.1 ≤ b.1)) (id, e) elements

/-- The number of the element with the identity of `e`, which is added if there
is none, and the store with it. -/
def addElement (g : Store) (e : Element) : VertexId × Store :=
  match g.find? e.key with
  | some id => (id, g)
  | none =>
    let id := g.vertexIds.next
    (id, { g with
      elements := place id e g.elements
      index := (e.key, id) :: g.index
      vertexIds := g.vertexIds.take })

/-- Adds a link and gives its number. -/
def addLink (g : Store) (source target : VertexId) (edge : Edge) : EdgeId × Store :=
  let id := g.edgeIds.next
  (id, { g with links := ⟨id, source, target, edge⟩ :: g.links, edgeIds := g.edgeIds.take })

/-- Changes an element in place. -/
def update (g : Store) (id : VertexId) (change : Element → Element) : Store :=
  { g with elements := g.elements.map fun (i, e) => if i = id then (i, change e) else (i, e) }

/-- Removes a link; an unknown number changes nothing. -/
def removeLink (g : Store) (id : EdgeId) : Store :=
  match g.link? id with
  | none => g
  | some _ =>
    { g with links := g.links.filter fun l => l.id != id, edgeIds := g.edgeIds.release id }

/-- Removes an element and every link that touches it; an unknown number
changes nothing. -/
def removeElement (g : Store) (id : VertexId) : Store :=
  match g.element? id with
  | none => g
  | some e =>
    -- A link from the vertex to itself leaves it, and is not given back twice.
    let leaving := g.outgoing id
    let entering := (g.incoming id).filter fun l => l.source != id
    { elements := g.elements.filter fun entry => entry.1 != id
      links := g.links.filter fun l => l.source != id && l.target != id
      index := g.index.filter fun entry => entry.1 != e.key
      vertexIds := g.vertexIds.release id
      edgeIds := g.edgeIds.releaseAll ((leaving ++ entering).map Link.id) }

end Store

end SchemaGraph

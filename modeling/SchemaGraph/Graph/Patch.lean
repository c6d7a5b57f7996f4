import SchemaGraph.Graph.Store

/-!
# Patches

Changes to a store that are collected first and made in one go.  What is
removed is named by number, what is added by identity, so that an added edge
may end at an element that the same patch adds.

The order is fixed: links are removed, elements are removed, elements are
added, links are added.  A link one of whose ends does not exist by then is
dropped.
-/

namespace SchemaGraph

/-- A link to add between elements named by identity. -/
structure PendingLink where
  source : ElementKey
  target : ElementKey
  edge : Edge
  deriving DecidableEq, Repr

/-- Changes to a store.  The removed numbers are ascending and without
repetition, what is added is in the order of its first request. -/
structure Patch where
  removedLinks : List EdgeId := []
  removedElements : List VertexId := []
  addedElements : List Element := []
  addedLinks : List PendingLink := []
  deriving DecidableEq

namespace Patch

/-- Also removes a link. -/
def removeLink (p : Patch) (id : EdgeId) : Patch :=
  { p with removedLinks := Ordered.insertNat id p.removedLinks }

/-- Also removes an element. -/
def removeElement (p : Patch) (id : VertexId) : Patch :=
  { p with removedElements := Ordered.insertNat id p.removedElements }

/-- Also adds an element, unless one with its identity is added already. -/
def addElement (p : Patch) (e : Element) : Patch :=
  if p.addedElements.any fun other => other.key == e.key then p
  else { p with addedElements := p.addedElements ++ [e] }

/-- Also adds a link, unless the same one is added already. -/
def addLink (p : Patch) (l : PendingLink) : Patch :=
  if p.addedLinks.contains l then p
  else { p with addedLinks := p.addedLinks ++ [l] }

/-- The number of changes. -/
def size (p : Patch) : Nat :=
  p.removedLinks.length + p.removedElements.length + p.addedElements.length + p.addedLinks.length

end Patch

namespace Store

/-- The store after a patch has removed and added elements. -/
def applyElements (g : Store) (p : Patch) : Store :=
  let g := p.removedLinks.foldl removeLink g
  let g := p.removedElements.foldl removeElement g
  p.addedElements.foldl (fun g e => (g.addElement e).2) g

/-- Adds a link between the elements with two identities, if both exist. -/
def connect (g : Store) (l : PendingLink) : Store :=
  match g.find? l.source, g.find? l.target with
  | some source, some target => (g.addLink source target l.edge).2
  | _, _ => g

/-- Whether one of the ends of a link does not exist. -/
def lacksEnd (g : Store) (l : PendingLink) : Bool :=
  (g.find? l.source).isNone || (g.find? l.target).isNone

/-- The store after a patch. -/
def apply (g : Store) (p : Patch) : Store :=
  p.addedLinks.foldl connect (g.applyElements p)

/-- The links that a patch asks for and that are dropped. -/
def dropped (g : Store) (p : Patch) : List PendingLink :=
  p.addedLinks.filter (g.applyElements p).lacksEnd

end Store

end SchemaGraph

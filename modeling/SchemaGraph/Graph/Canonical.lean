import SchemaGraph.Graph.Rooted
import SchemaGraph.Graph.Record
import SchemaGraph.Json.Printer
import SchemaGraph.Sha256
import SchemaGraph.Text.Utf8

/-!
# The canonical form of a graph

Lines that do not depend on numbers or on the order of construction: one for
each element with its whole record, one for each link with the identities of
its ends, both sorted, and one for the root.  Two graphs count as equal when
their lines are equal, and the identity of a graph is the digest of its lines.
-/

namespace SchemaGraph

namespace RootedGraph

/-- The identity of a vertex as text; empty for a number that is none. -/
def keyText (g : RootedGraph) (id : VertexId) : String :=
  match g.store.element? id with
  | some e => e.key.text
  | none => ""

/-- The line of an element. -/
def elementLine (e : Element) : String := "V|" ++ e.toJson.compact

/-- A truth value as text. -/
def flagText (b : Bool) : String := if b then "true" else "false"

/-- The line of a link. -/
def linkLine (g : RootedGraph) (l : Link) : String :=
  Text.join "|"
    ["E", g.keyText l.source, g.keyText l.target, l.edge.kind.name, l.edge.type,
     flagText l.edge.isMessageType]

/-- Lines in ascending order; the order of code points is that of the bytes. -/
def sortLines (lines : List String) : List String :=
  Ordered.sort (fun a b => decide (a ≤ b)) lines

/-- The lines of the graph. -/
def canonicalForm (g : RootedGraph) : List String :=
  sortLines (g.store.elements.map fun entry => elementLine entry.2) ++
    sortLines (g.store.links.map g.linkLine) ++
    ["R|" ++ g.keyText g.rootId]

/-- Whether two graphs have the same canonical form. -/
def same (g h : RootedGraph) : Bool := g.canonicalForm == h.canonicalForm

/-- The digest of the canonical form, in hexadecimal digits. -/
def identityHash (g : RootedGraph) : String :=
  Sha256.hexDigest (g.canonicalForm.flatMap fun line => Text.Utf8.encode line ++ [10])

end RootedGraph

end SchemaGraph

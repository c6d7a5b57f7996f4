import SchemaGraph.Graph.Store

/-!
# Neighbours and paths

Paths are enumerated depth first along the links of a vertex in their order.
No vertex is visited twice on one path, so every step leaves one target fewer
to visit and the search ends on every graph.  Parallel links give different
paths.  From a vertex to itself the paths are its loops.
-/

namespace SchemaGraph

/-- A path as the vertices it visits and the links it follows. -/
structure Path where
  vertices : List VertexId
  links : List EdgeId
  deriving DecidableEq, Repr

namespace Path

/-- The path along links from a vertex. -/
def ofLinks (start : VertexId) (links : List Link) : Path :=
  ⟨start :: links.map Link.target, links.map Link.id⟩

/-- The number of links. -/
def length (p : Path) : Nat := p.links.length

/-- Whether the path follows no link. -/
def isEmpty (p : Path) : Bool := p.links.isEmpty

/-- The first vertex. -/
def source? (p : Path) : Option VertexId := p.vertices.head?

/-- The last vertex. -/
def target? (p : Path) : Option VertexId := p.vertices.getLast?

end Path

namespace Store

/-- The sources of the links that enter a vertex. -/
def predecessors (g : Store) (id : VertexId) : List VertexId := (g.incoming id).map Link.source

/-- The targets of the links that leave a vertex. -/
def successors (g : Store) (id : VertexId) : List VertexId := (g.outgoing id).map Link.target

/-- The targets of the links of a kind that leave a vertex. -/
def successorsBy (g : Store) (kind : EdgeKind) (id : VertexId) : List VertexId :=
  ((g.outgoing id).filter fun l => l.edge.kind == kind).map Link.target

/-- The links of the store whose target has not been visited. -/
def unvisited (g : Store) (visited : List VertexId) : List Link :=
  g.links.filter fun l => !visited.contains l.target

theorem unvisited_cons_length_lt (g : Store) (visited : List VertexId) (l : Link)
    (hl : l ∈ g.links) (hnew : visited.contains l.target = false) :
    (g.unvisited (l.target :: visited)).length < (g.unvisited visited).length := by
  have hsub : g.unvisited (l.target :: visited) =
      (g.unvisited visited).filter fun m => !(m.target == l.target) := by
    unfold unvisited
    rw [List.filter_filter]
    congr 1
    funext m
    by_cases h : m.target = l.target <;> simp [h]
  rw [hsub]
  apply List.length_filter_lt_length_iff_exists.mpr
  refine ⟨l, ?_, by simp⟩
  simp [unvisited, hl]
  simpa using hnew

/-- The continuations of a path from a vertex to a target along links that
`follow` accepts, with the vertices visited so far. -/
def extensions (g : Store) (follow : Edge → Bool) (target : VertexId) (visited : List VertexId)
    (v : VertexId) : List (List Link) :=
  (g.outgoing v).attach.flatMap fun ⟨l, hl⟩ =>
    if hnew : follow l.edge = true ∧ visited.contains l.target = false then
      if l.target = target then [[l]]
      else
        have : (g.unvisited (l.target :: visited)).length < (g.unvisited visited).length :=
          g.unvisited_cons_length_lt visited l (List.mem_filter.mp hl).1 hnew.2
        (g.extensions follow target (l.target :: visited) l.target).map (l :: ·)
    else []
termination_by (g.unvisited visited).length

/-- The paths between two vertices along links that `follow` accepts. -/
def pathsBy (g : Store) (follow : Edge → Bool) (source target : VertexId) : List Path :=
  match g.element? source, g.element? target with
  | some _, some _ =>
    if source = target then
      ((g.outgoing source).filter fun l => l.target == source && follow l.edge).map fun l =>
        Path.ofLinks source [l]
    else (g.extensions follow target [source] source).map (Path.ofLinks source)
  | _, _ => []

/-- All paths between two vertices on which no vertex repeats. -/
def paths (g : Store) (source target : VertexId) : List Path :=
  g.pathsBy (fun _ => true) source target

/-- The paths between two vertices that follow field steps only. -/
def fieldPaths (g : Store) (source target : VertexId) : List Path :=
  g.pathsBy (fun e => e.kind == .field) source target

end Store

end SchemaGraph

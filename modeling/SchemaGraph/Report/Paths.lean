import SchemaGraph.Graph.Rooted
import SchemaGraph.Json.Record
import SchemaGraph.Text.Style

/-!
# Path reports

The `paths` report: every path as the steps it takes, named by the full names
of their ends.  On a terminal a path is one numbered line, and a step to a
declared type stands in parentheses.
-/

namespace SchemaGraph

open Text (styled)

/-- One step of a path. -/
structure PathStep where
  source : String
  target : String
  edgeType : String
  typeRef : Bool
  isMessageType : Bool
  deriving DecidableEq, Repr

/-- One path. -/
structure PathEntry where
  length : Nat
  steps : List PathStep
  deriving DecidableEq, Repr

/-- The paths between two elements. -/
structure PathReport where
  source : String
  target : String
  paths : List PathEntry
  deriving DecidableEq, Repr

/-- The full name of a vertex, empty for a number that is none. -/
def Store.nameOf (g : Store) (id : VertexId) : String :=
  match g.element? id with
  | some e => e.fullName
  | none => ""

/-- The step along a link. -/
def PathStep.ofLink (g : Store) (l : Link) : PathStep where
  source := g.nameOf l.source
  target := g.nameOf l.target
  edgeType := l.edge.type
  typeRef := l.edge.kind == .typeRef
  isMessageType := l.edge.isMessageType

/-- The entry of a path. -/
def PathEntry.ofPath (g : Store) (p : Path) : PathEntry :=
  let steps := (p.links.filterMap g.link?).map (PathStep.ofLink g)
  ⟨steps.length, steps⟩

/-- The report on paths between two named elements. -/
def PathReport.ofPaths (g : Store) (source target : String) (paths : List Path) : PathReport :=
  ⟨source, target, paths.map (PathEntry.ofPath g)⟩

/-- The JSON record of a step. -/
def PathStep.toJson (s : PathStep) : Json :=
  .object
    [("source", .string s.source), ("target", .string s.target),
     ("edge_type", .string s.edgeType), ("type_ref", .bool s.typeRef),
     ("is_message_type", .bool s.isMessageType)]

/-- The step of a JSON record. -/
def PathStep.ofJson? (v : Json) : Option PathStep := do
  match ← v.parts? ["source", "target", "edge_type", "type_ref", "is_message_type"] with
  | [some source, some target, some edgeType, some typeRef, some isMessageType] =>
    return ⟨← source.string?, ← target.string?, ← edgeType.string?, ← typeRef.bool?,
      ← isMessageType.bool?⟩
  | _ => none

/-- The JSON record of a path. -/
def PathEntry.toJson (p : PathEntry) : Json :=
  .object [("length", .nat p.length), ("steps", .array (p.steps.map PathStep.toJson))]

/-- The path of a JSON record. -/
def PathEntry.ofJson? (v : Json) : Option PathEntry := do
  match ← v.parts? ["length", "steps"] with
  | [some length, some steps] =>
    return ⟨← length.nat?, ← (← steps.array?).mapM PathStep.ofJson?⟩
  | _ => none

/-- The JSON record of a report. -/
def PathReport.toJson (r : PathReport) : Json :=
  .object
    [("from", .string r.source), ("to", .string r.target),
     ("paths", .array (r.paths.map PathEntry.toJson))]

/-- The report of a JSON record. -/
def PathReport.ofJson? (v : Json) : Option PathReport := do
  match ← v.parts? ["from", "to", "paths"] with
  | [some source, some target, some paths] =>
    return ⟨← source.string?, ← target.string?, ← (← paths.array?).mapM PathEntry.ofJson?⟩
  | _ => none

/-- The target of a step as a hop of the terminal line. -/
def PathStep.hop (s : PathStep) : String :=
  if s.typeRef then "(" ++ s.target ++ ")" else s.target

/-- The terminal line of the path at a position. -/
def PathEntry.line (source : String) (position : Nat) (p : PathEntry) : String :=
  "  " ++ Text.padLeft 3 (toString (position + 1)) ++ ". " ++
    Text.join " -> " (source :: p.steps.map PathStep.hop)

/-- The terminal text of a report. -/
def PathReport.terminal (color : Bool) (r : PathReport) : String :=
  if r.paths = [] then "  No path from " ++ r.source ++ " to " ++ r.target
  else
    Text.join "\n"
      (("  " ++ toString r.paths.length ++ " path(s) from " ++ styled color .cyan r.source ++
          " to " ++ styled color .cyan r.target) ::
        r.paths.zipIdx.map fun (p, i) => p.line r.source i)

end SchemaGraph

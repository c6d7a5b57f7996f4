import SchemaGraph.Graph.Canonical
import SchemaGraph.Graph.SchemaField
import SchemaGraph.Text.Style

/-!
# Summaries

What the `inspect` and `fields` reports say of a graph: the root, its file and
comment, how many elements of each kind there are, and the identity of the
graph.
-/

namespace SchemaGraph

open Text (styled)

/-- How many vertices of each kind, and how many edges, a graph has. -/
structure Counts where
  vertices : Nat
  edges : Nat
  messages : Nat
  fields : Nat
  oneOfs : Nat
  enums : Nat
  deriving DecidableEq, Repr

/-- A summary of a graph. -/
structure Summary where
  root : String
  file : String
  majorVersion : Int32
  comment : String
  counts : Counts
  extensions : Nat
  hash : String
  deriving DecidableEq, Repr

/-- The counts of a store. -/
def Counts.ofStore (g : Store) : Counts :=
  let count := fun kind => (g.elements.filter fun entry => entry.2.kind == kind).length
  { vertices := g.elementCount
    edges := g.linkCount
    messages := count .message
    fields := count .field
    oneOfs := count .oneOf
    enums := count .enum }

/-- The JSON record of counts. -/
def Counts.toJson (c : Counts) : Json :=
  .object
    [("vertices", .nat c.vertices), ("edges", .nat c.edges), ("messages", .nat c.messages),
     ("fields", .nat c.fields), ("one_ofs", .nat c.oneOfs), ("enums", .nat c.enums)]

/-- The counts of a JSON record. -/
def Counts.ofJson? (v : Json) : Option Counts := do
  match ← v.parts? ["vertices", "edges", "messages", "fields", "one_ofs", "enums"] with
  | [some vertices, some edges, some messages, some fields, some oneOfs, some enums] =>
    return ⟨← vertices.nat?, ← edges.nat?, ← messages.nat?, ← fields.nat?, ← oneOfs.nat?,
      ← enums.nat?⟩
  | _ => none

namespace Summary

/-- The summary of a graph. -/
def ofGraph (g : RootedGraph) : Summary where
  root := g.fullName
  file := g.root.file
  majorVersion := g.majorVersion
  comment := g.root.comment
  counts := Counts.ofStore g.store
  extensions := g.registry.size
  hash := g.identityHash

/-- The JSON record; an empty comment has no entry. -/
def toJson (s : Summary) : Json :=
  .object
    ([("root", .string s.root), ("file", .string s.file),
      ("major_version", .ofInt32 s.majorVersion)] ++
     (if s.comment = "" then [] else [("comment", .string s.comment)]) ++
     [("counts", s.counts.toJson), ("extensions", .nat s.extensions), ("hash", .string s.hash)])

/-- The summary of a JSON record. -/
def ofJson? (v : Json) : Option Summary := do
  match ← v.parts?
    ["root", "file", "major_version", "comment", "counts", "extensions", "hash"] with
  | [some root, some file, some majorVersion, comment, some counts, some extensions,
     some hash] =>
    return {
      root := ← root.string?
      file := ← file.string?
      majorVersion := ← majorVersion.int32?
      comment := ← Json.stringOrEmpty? comment
      counts := ← Counts.ofJson? counts
      extensions := ← extensions.nat?
      hash := ← hash.string? }
  | _ => none

/-- The line that names a root and its version. -/
def rootLine (color : Bool) (root : String) (version : Int32) : String :=
  "  " ++ styled color .bold "root" ++ " " ++ styled color .cyan root ++ " (v" ++
    toString version.toInt ++ ")"

/-- The lines of a comment. -/
def commentLines (color : Bool) (comment : String) : List String :=
  (Text.lines comment).map fun line => "    " ++ styled color .dimmed line

/-- The line of counts. -/
def countsLine (color : Bool) (c : Counts) : String :=
  "  " ++ styled color .bold "graph" ++ " " ++ toString c.vertices ++ " vertices, " ++
    toString c.edges ++ " edges (" ++ toString c.messages ++ " messages, " ++
    toString c.fields ++ " fields, " ++ toString c.oneOfs ++ " oneofs, " ++
    toString c.enums ++ " enums)"

/-- The terminal text. -/
def terminal (color : Bool) (s : Summary) : String :=
  Text.join "\n"
    ([rootLine color s.root s.majorVersion,
      "  " ++ styled color .bold "file" ++ " " ++ s.file] ++
     commentLines color s.comment ++
     [countsLine color s.counts,
      "  " ++ styled color .bold "extensions" ++ " " ++ toString s.extensions,
      "  " ++ styled color .bold "hash" ++ " " ++ styled color .dimmed s.hash])

end Summary

/-- The line above the fields of a graph. -/
def RootedGraph.header (color : Bool) (g : RootedGraph) : String :=
  Summary.rootLine color g.fullName g.majorVersion

/-- The terminal line of a schema field. -/
def SchemaField.terminal (color : Bool) (f : SchemaField) : String :=
  "  " ++ f.fieldPath ++ " " ++ styled color .green f.nativeType ++
    styled color .yellow (if f.nullable then "" else " required")

end SchemaGraph

import SchemaGraph.Graph.Store

/-!
# Root messages

The root of a graph is named outright, or detected: the only message of a file
that lies in no other message, that nothing refers to, and whose parts are
reached from nowhere else.  The file searched is the first one whose name is a
suffix of a given path, else the last file of the set.
-/

namespace SchemaGraph

/-- Why a graph has no root. -/
inductive RootFault where
  | notFound (message : String)
  | noCandidate (file : String)
  | candidates (file : String) (names : List String)
  | noFiles
  deriving DecidableEq, Repr

/-- The text of a fault. -/
def RootFault.message : RootFault → String
  | .notFound name => "Cannot find protobuf message " ++ name
  | .noCandidate file => "Cannot autodetect root message: no candidate message in " ++ file
  | .candidates file names =>
    "Cannot autodetect root message: " ++ toString names.length ++ " candidates in " ++ file ++
      ": " ++ Text.join ", " names
  | .noFiles => "Descriptor set contains no files"

namespace Store

/-- The message with a full name. -/
def findMessage (g : Store) (name : String) : Except RootFault VertexId :=
  match g.find? (.message name) with
  | some id => .ok id
  | none => .error (.notFound name)

/-- Whether a vertex has no incoming edge and all its targets are entered from
it alone. -/
def standsAlone (g : Store) (id : VertexId) : Bool :=
  (g.incoming id).isEmpty &&
    (g.outgoing id).all fun l => (g.incoming l.target).all fun m => m.source == id

/-- The messages of a file that may be its root, by ascending name. -/
def rootCandidates (g : Store) (file : String) : List (VertexId × String) :=
  Ordered.sort (fun a b => decide (a.2 ≤ b.2))
    ((g.elements.filter fun (id, e) =>
      e.kind == .message && e.parent.isNone && e.file == file && g.standsAlone id).map
      fun (id, e) => (id, e.fullName))

/-- The only candidate of a file. -/
def detectRoot (g : Store) (file : String) : Except RootFault VertexId :=
  match g.rootCandidates file with
  | [(id, _)] => .ok id
  | [] => .error (.noCandidate file)
  | many => .error (.candidates file (many.map (·.2)))

end Store

/-- The file to search for a root. -/
def FileSet.targetFile (set : FileSet) (path : Option String) : Except RootFault FileDecl :=
  let matched := path.bind fun path =>
    set.files.find? fun file => file.name != "" && Text.endsWith path file.name
  match matched with
  | some file => .ok file
  | none =>
    match set.files.getLast? with
    | some file => .ok file
    | none => .error .noFiles

end SchemaGraph

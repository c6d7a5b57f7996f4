import SchemaGraph.Graph.Options
import SchemaGraph.Graph.Reference
import SchemaGraph.Graph.Wrapper
import SchemaGraph.Graph.Root
import SchemaGraph.Graph.Path
import SchemaGraph.Descriptor.Reader

/-!
# Rooted graphs

The finished graph of a descriptor set: its store, the root message it is read
from, and the extensions the set declares.

`RootedGraph.ofSet` builds one from decoded declarations, which carry no custom
options.  `RootedGraph.ofBytes` reads the same bytes twice, for the
declarations and for their encoded options, and attaches the options before
wrapper messages are flattened, so that a replaced field keeps them.
-/

namespace SchemaGraph

/-- Why no graph is built. -/
inductive BuildError where
  | root (fault : RootFault)
  | malformed (error : Wire.DecodeError)
  | options (fault : OptionFault)
  deriving DecidableEq, Repr

/-- The text of an error. -/
def BuildError.message : BuildError → String
  | .root fault => fault.message
  | .malformed error => "Malformed descriptor set: " ++ error.message
  | .options fault => "Malformed custom options: " ++ fault.message

/-- The error of options that cannot be decoded. -/
def BuildError.ofOption : OptionError → BuildError
  | .wire fault => .malformed { fault }
  | .option fault => .options fault

/-- A finished graph. -/
structure RootedGraph where
  store : Store
  rootId : VertexId
  root : Element
  registry : Registry

/-- The root of a store: the named message, or the one detected in the target
file of the set. -/
def FileSet.selectRoot (set : FileSet) (options : GraphOptions) (g : Store) :
    Except RootFault VertexId :=
  match options.messageName with
  | some name => g.findMessage name
  | none =>
    match set.targetFile options.filename with
    | .error fault => .error fault
    | .ok file => g.detectRoot file.name

namespace RootedGraph

/-- Selects the root of a store. -/
def finish (set : FileSet) (options : GraphOptions) (g : Store) : Except BuildError RootedGraph :=
  match set.selectRoot options g with
  | .error fault => .error (.root fault)
  | .ok id =>
    match g.element? id with
    | none => .error (.root (.notFound ("root vertex " ++ toString id)))
    | some root => .ok ⟨g, id, root, Registry.ofSet set⟩

/-- Flattens wrapper messages, if asked for, and selects the root. -/
def build (set : FileSet) (options : GraphOptions) (g : Store) : Except BuildError RootedGraph :=
  finish set options (if options.flattenWrappers then g.flatten else g)

/-- The graph of a descriptor set, without custom options. -/
def ofSet (set : FileSet) (options : GraphOptions) : Except BuildError RootedGraph :=
  build set options (Draft.ofSet set).store

/-- The graph of a descriptor set given by its bytes. -/
def ofBytes (bs : Wire.Bytes) (options : GraphOptions) : Except BuildError RootedGraph :=
  match FileSet.decode bs with
  | .error e => .error (.malformed e)
  | .ok set =>
    match EncodedOptions.decode bs with
    | .error e => .error (.malformed e)
    | .ok encoded =>
      match Draft.attach (Registry.ofSet set) encoded.entries (Draft.ofSet set).store with
      | .error e => .error (.ofOption e)
      | .ok (g, _) => build set options g

/-- The vertex with a full name; of several, the first by kind. -/
def findByName (g : RootedGraph) (fullName : String) : Option VertexId :=
  ElementKind.all.findSome? fun kind => g.store.find? ⟨kind, fullName⟩

/-- The major version of the root's file. -/
def majorVersion (g : RootedGraph) : Int32 := g.root.majorVersion

/-- The full name of the root. -/
def fullName (g : RootedGraph) : String := g.root.fullName

end RootedGraph

end SchemaGraph

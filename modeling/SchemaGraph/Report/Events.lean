import SchemaGraph.Graph.Rooted

/-!
# Events of a construction

The steps of building a graph from bytes that are worth telling, in the order
in which they happen, up to the one that fails.  Telling changes nothing: the
graph or the error is that of the plain construction (`snd_logged`).
-/

namespace SchemaGraph

/-- A step of building a graph. -/
inductive BuildEvent where
  | decoded (files : Nat)
  | optionsRead (elements : Nat)
  | registryBuilt (extensions : Nat)
  | declared (vertices edges : Nat)
  | unresolved (reference : Draft.Unresolved)
  | resolved (edges : Nat)
  | attached (elements : Nat)
  | flattening (vertices edges : Nat)
  | dropped (source target : String)
  | rootDetected (root file : String)
  | ready (root : String) (vertices edges : Nat)
  deriving DecidableEq, Repr

namespace RootedGraph

/-- The events of taking up the declarations of a set and resolving their
references. -/
def draftEvents (set : FileSet) : List BuildEvent :=
  let declared := Draft.ofDeclarations set.declarations
  [.registryBuilt (Registry.ofSet set).size,
   .declared declared.store.elementCount declared.store.linkCount] ++
    declared.unresolved.map .unresolved ++
    [.resolved declared.resolveAll.store.linkCount]

/-- The events of flattening, if it is asked for. -/
def flattenEvents (options : GraphOptions) (g : Store) : List BuildEvent :=
  if options.flattenWrappers then
    let patch := g.planFlattening
    .flattening patch.removedElements.length patch.removedLinks.length ::
      (g.dropped patch).map fun l => .dropped l.source.fullName l.target.fullName
  else []

/-- The events of selecting the root. -/
def finishEvents (set : FileSet) (options : GraphOptions) (g : Store) : List BuildEvent :=
  match finish set options g with
  | .error _ => []
  | .ok r =>
    let detected := match options.messageName with
      | some _ => []
      | none =>
        match set.targetFile options.filename with
        | .ok file => [.rootDetected r.fullName file.name]
        | .error _ => []
    detected ++ [.ready r.fullName r.store.elementCount r.store.linkCount]

/-- The graph of a descriptor set given by its bytes, with the events of its
construction. -/
def logged (bs : Wire.Bytes) (options : GraphOptions) :
    List BuildEvent × Except BuildError RootedGraph :=
  match FileSet.decode bs with
  | .error e => ([], .error (.malformed e))
  | .ok set =>
    let told := [.decoded set.files.length]
    match EncodedOptions.decode bs with
    | .error e => (told, .error (.malformed e))
    | .ok encoded =>
      let told := told ++ [.optionsRead encoded.size] ++ draftEvents set
      match Draft.attach (Registry.ofSet set) encoded.entries (Draft.ofSet set).store with
      | .error e => (told, .error (.ofOption e))
      | .ok (g, n) =>
        let flat := if options.flattenWrappers then g.flatten else g
        (told ++ [.attached n] ++ flattenEvents options g ++ finishEvents set options flat,
          finish set options flat)

/-- Telling the events does not change what is built. -/
theorem snd_logged (bs : Wire.Bytes) (options : GraphOptions) :
    (logged bs options).2 = ofBytes bs options := by
  unfold logged ofBytes
  cases FileSet.decode bs with
  | error e => rfl
  | ok set =>
      cases EncodedOptions.decode bs with
      | error e => rfl
      | ok encoded =>
          dsimp only
          cases Draft.attach (Registry.ofSet set) encoded.entries (Draft.ofSet set).store with
          | error e => rfl
          | ok r => rfl

end RootedGraph

end SchemaGraph

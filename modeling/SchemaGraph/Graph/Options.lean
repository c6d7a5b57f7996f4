/-!
# Options of a graph

What may be asked for when the graph of a descriptor set is built.
-/

namespace SchemaGraph

/-- What steers the construction of a graph. -/
structure GraphOptions where
  /-- The full name of the root message; detected if not given. -/
  messageName : Option String := none
  /-- A path that ends with the name of the file to detect the root in. -/
  filename : Option String := none
  /-- Whether wrapper messages are flattened. -/
  flattenWrappers : Bool := true
  deriving DecidableEq, Repr

end SchemaGraph

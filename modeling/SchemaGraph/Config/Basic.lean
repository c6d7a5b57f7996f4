import SchemaGraph.Graph.Options
import SchemaGraph.Toml.Quote
import SchemaGraph.Toml.Reader

/-!
# Configuration

What a configuration file says: which graph to build and how to show it.  Every
key may be missing, keys that mean nothing here are passed over, and a section
may be an array that gives its values in the order of its keys.  A date in
place of a section says nothing, as an empty section does.

The written form leaves out what is not set.
-/

namespace SchemaGraph

/-- The section on the graph. -/
structure GraphSection where
  /-- The full name of the root message. -/
  rootMessage : Option String := none
  /-- The schema file to detect the root in. -/
  sourceFile : Option String := none
  /-- Whether wrapper messages are flattened. -/
  flattenWrappers : Bool := true
  deriving DecidableEq, Repr

/-- What a section says of the graph to build. -/
def GraphSection.options (s : GraphSection) : GraphOptions where
  messageName := s.rootMessage
  filename := s.sourceFile
  flattenWrappers := s.flattenWrappers

/-- The section on the output. -/
structure OutputSection where
  /-- The name of the output format. -/
  format : String := "terminal"
  /-- Whether output may be coloured. -/
  color : Bool := true
  deriving DecidableEq, Repr

/-- A configuration. -/
structure Config where
  graph : GraphSection := {}
  output : OutputSection := {}
  deriving DecidableEq, Repr

namespace Config

open Toml (Value Entries)

/-- The values under the keys of a section. -/
def parts? (keys : List String) : Value → Option (List (Option Value))
  | .table _ entries => some (keys.map fun key => entries.lookup key)
  | .array items => some (keys.zipIdx.map fun (_, i) => items[i]?)
  | .tables items => some (keys.zipIdx.map fun (_, i) => items[i]?)
  | .moment => some (keys.map fun _ => none)
  | _ => none

/-- A text, or what stands for a missing one. -/
def text? (default : String) : Option Value → Option String
  | none => some default
  | some (.string s) => some s
  | some _ => none

/-- A text that may be missing. -/
def optionalText? : Option Value → Option (Option String)
  | none => some none
  | some (.string s) => some (some s)
  | some _ => none

/-- A truth value, true if it is missing. -/
def flag? : Option Value → Option Bool
  | none => some true
  | some (.bool b) => some b
  | some _ => none

/-- The section on the graph. -/
def graph? : Option Value → Option GraphSection
  | none => some {}
  | some v => do
    match ← parts? ["root_message", "source_file", "flatten_wrappers"] v with
    | [root, file, flatten] =>
      return ⟨← optionalText? root, ← optionalText? file, ← flag? flatten⟩
    | _ => none

/-- The section on the output. -/
def output? : Option Value → Option OutputSection
  | none => some {}
  | some v => do
    match ← parts? ["format", "color"] v with
    | [format, color] => return ⟨← text? "terminal" format, ← flag? color⟩
    | _ => none

/-- The configuration in a document. -/
def ofEntries? (entries : Entries) : Option Config := do
  return ⟨← graph? (entries.lookup "graph"), ← output? (entries.lookup "output")⟩

/-- The configuration in a text. -/
def read? (text : String) : Option Config := do
  ofEntries? (← Toml.read? text)

/-- A line that sets a key to a text, if there is one. -/
def textLine (key : String) : Option String → List String
  | none => []
  | some s => [key ++ " = " ++ Toml.quote s]

/-- A line that sets a key to a truth value. -/
def flagLine (key : String) (b : Bool) : List String :=
  [key ++ " = " ++ (if b then "true" else "false")]

/-- The lines of a configuration. -/
def lines (c : Config) : List String :=
  ["[graph]"] ++ textLine "root_message" c.graph.rootMessage ++
    textLine "source_file" c.graph.sourceFile ++
    flagLine "flatten_wrappers" c.graph.flattenWrappers ++
    ["", "[output]"] ++ textLine "format" (some c.output.format) ++
    flagLine "color" c.output.color

/-- The text of a configuration. -/
def text (c : Config) : String := String.join (c.lines.map (· ++ "\n"))

end Config

end SchemaGraph

import SchemaGraph.Report.Events
import SchemaGraph.Text.Quoted
import SchemaGraph.Text.Style

/-!
# Log lines

What the program tells while it runs.  An event has a severity, the name of the
part it comes from, a message and named values.
-/

namespace SchemaGraph

/-- How severe an event is. -/
inductive Severity where
  | error
  | warn
  | info
  | debug
  | trace
  deriving DecidableEq, Repr

namespace Severity

/-- The name of a severity in log lines. -/
def name : Severity → String
  | .error => "ERROR"
  | .warn => "WARN"
  | .info => "INFO"
  | .debug => "DEBUG"
  | .trace => "TRACE"

/-- The severities from the gravest to the slightest count from one. -/
def rank : Severity → Nat
  | .error => 1
  | .warn => 2
  | .info => 3
  | .debug => 4
  | .trace => 5

/-- The word for a severity in settings. -/
def word (s : Severity) : String := s.name.toLower

/-- The least severity that is told when nothing else is asked for. -/
def ofVerbosity : Nat → Severity
  | 0 => .warn
  | 1 => .info
  | 2 => .debug
  | _ => .trace

end Severity

/-- A log line before it is written. -/
structure LogLine where
  severity : Severity
  /-- The part of the program that tells the event. -/
  origin : String
  message : String
  /-- The named values. -/
  values : List (String × String)
  deriving DecidableEq, Repr

namespace LogLine

/-- The text of a log line. -/
def text (l : LogLine) : String :=
  l.severity.name ++ " " ++ l.message ++
    String.join (l.values.map fun (name, value) => " " ++ name ++ "=" ++ value)

/-- The text of a log line with its severity in a style, if colour is on. -/
def terminal (color : Bool) (l : LogLine) : String :=
  let style : Text.Style := match l.severity with
    | .error | .warn => .yellow
    | .info => .green
    | .debug | .trace => .cyan
  Text.styled color style l.severity.name ++ " " ++ l.message ++
    String.join (l.values.map fun (name, value) =>
      " " ++ Text.styled color .dimmed name ++ "=" ++ value)

/-- Numbers under names. -/
def numbers (values : List (String × Nat)) : List (String × String) :=
  values.map fun (name, n) => (name, toString n)

/-- The log line of a step of building a graph. -/
def ofBuild : BuildEvent → LogLine
  | .decoded files =>
    ⟨.debug, "protograph_core::descriptor", "decoded descriptor set", numbers [("files", files)]⟩
  | .optionsRead elements =>
    ⟨.debug, "protograph_core::options", "read raw custom options",
      numbers [("elements", elements)]⟩
  | .registryBuilt extensions =>
    ⟨.debug, "protograph_core::descriptor", "built extension registry",
      numbers [("extensions", extensions)]⟩
  | .declared vertices edges =>
    ⟨.debug, "protograph_core::graph::builder", "built schema vertices",
      numbers [("vertices", vertices), ("edges", edges)]⟩
  | .unresolved reference =>
    ⟨.warn, "protograph_core::graph::resolver", "referenced message type not in descriptor set",
      [("field", Text.quoted reference.field), ("type_name", reference.typeName)]⟩
  | .resolved edges =>
    ⟨.debug, "protograph_core::graph::builder", "resolved cross-message references",
      numbers [("edges", edges)]⟩
  | .attached elements =>
    ⟨.debug, "protograph_core::graph::builder", "attached custom options",
      numbers [("attached", elements)]⟩
  | .flattening vertices edges =>
    ⟨.debug, "protograph_core::graph::builder", "flattening wrapper types",
      numbers [("remove_vertices", vertices), ("remove_edges", edges)]⟩
  | .dropped source target =>
    ⟨.warn, "protograph_core::graph::flatten", "dropping edge with a removed endpoint",
      [("source", source), ("target", target)]⟩
  | .rootDetected root file =>
    ⟨.info, "protograph_core::graph::root", "autodetected root message",
      [("root", root), ("file", file)]⟩
  | .ready root vertices edges =>
    ⟨.debug, "protograph_core::graph::proto", "schema graph ready",
      ("root", root) :: numbers [("vertices", vertices), ("edges", edges)]⟩

/-- The log line of a graph that a command goes on with. -/
def loaded (g : RootedGraph) : LogLine :=
  ⟨.info, "protograph_cli::commands", "loaded schema graph",
    ("root", g.fullName) ::
      numbers [("vertices", g.store.elementCount), ("edges", g.store.linkCount)]⟩

end LogLine

end SchemaGraph

import SchemaGraph.Config.Basic

/-!
# Commands

The commands of the program with their arguments, and how arguments and
configuration are brought together: what an argument says goes before what the
configuration says.
-/

namespace SchemaGraph

/-- How reports are written. -/
inductive OutputFormat where
  | terminal
  | json
  deriving DecidableEq, Repr

namespace OutputFormat

/-- The format with a name on the command line. -/
def ofName? : String → Option OutputFormat
  | "terminal" => some .terminal
  | "json" => some .json
  | _ => none

/-- The format asked for, else the configured one.  A configured name that
means nothing stands for the terminal. -/
def resolve (asked : Option OutputFormat) (configured : String) : OutputFormat :=
  match asked with
  | some format => format
  | none => (ofName? configured).getD .terminal

end OutputFormat

/-- The arguments that say which graph to build. -/
structure GraphArguments where
  /-- The path of the descriptor set. -/
  descriptor : String
  /-- The full name of the root message. -/
  message : Option String := none
  /-- The schema file to detect the root in. -/
  file : Option String := none
  /-- Whether wrapper messages stay as they are. -/
  noFlatten : Bool := false
  deriving DecidableEq, Repr

/-- The options of a graph: what is not given as an argument comes from the
configuration. -/
def GraphArguments.options (a : GraphArguments) (s : GraphSection) : GraphOptions where
  messageName := a.message <|> s.options.messageName
  filename := a.file <|> s.options.filename
  flattenWrappers := s.options.flattenWrappers && !a.noFlatten

/-- A command. -/
inductive Command where
  /-- Writes a default configuration into a directory. -/
  | init (directory : Option String)
  /-- Sums up a graph. -/
  | inspect (graph : GraphArguments)
  /-- Lists the schema fields of the root. -/
  | fields (graph : GraphArguments)
  /-- Lists the paths between two elements. -/
  | paths (graph : GraphArguments) (source target : String)
  deriving DecidableEq, Repr

/-- A command with the options that hold for all commands. -/
structure Invocation where
  command : Command
  format : Option OutputFormat := none
  /-- How much is logged, at most 255. -/
  verbosity : Nat := 0
  deriving DecidableEq, Repr

end SchemaGraph

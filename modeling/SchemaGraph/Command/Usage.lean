import SchemaGraph.Command.Line
import SchemaGraph.Text.Segment

/-!
# Usage

What is said when a command line is not run.  Help and the version that were
asked for are answers; everything else is a fault of the command line.
-/

namespace SchemaGraph

/-- The name of the program and its version. -/
def versionText : String := "protograph 0.1.0\n"

/-- The commands and options. -/
def usageText : String :=
  Text.join "\n"
    ["Inspect protobuf descriptor sets as a navigable type graph",
     "",
     "Usage: protograph [OPTIONS] <COMMAND>",
     "",
     "Commands:",
     "  init [PATH]            Initialize .protograph.toml configuration",
     "  inspect <DESCRIPTOR>   Summarize the graph of a descriptor set",
     "  fields <DESCRIPTOR>    List the flattened schema fields of the root message",
     "  paths <DESCRIPTOR>     Enumerate all paths between two schema elements",
     "  help                   Print this text",
     "",
     "Options:",
     "  --format <FORMAT>      Output format: terminal or json",
     "  -v, --verbose          Log more (-v info, -vv debug, -vvv trace)",
     "  -h, --help             Print help",
     "  -V, --version          Print version",
     "",
     "Options of inspect, fields and paths:",
     "  --message <MESSAGE>    Fully-qualified root message",
     "  --file <FILE>          Schema file to auto-detect the root message in",
     "  --no-flatten           Keep google.protobuf wrapper types as nested messages",
     "  --from <FROM>          Name of the source element (paths)",
     "  --to <TO>              Name of the target element (paths)",
     ""]

namespace UsageFault

/-- Whether the command line asked for what is shown instead of a run. -/
def isAnswer : UsageFault → Bool
  | .help | .version => true
  | _ => false

/-- What is shown. -/
def message : UsageFault → String
  | .help | .nothing => usageText
  | .version => versionText
  | .missingCommand => "error: a command is required\n"
  | .unknownCommand => "error: unrecognized command\n"
  | .unknownArgument => "error: unexpected argument\n"
  | .unwantedValue => "error: unexpected value for an option that takes none\n"
  | .badValue => "error: invalid or missing value\n"
  | .repeated => "error: an option cannot be used multiple times\n"
  | .missingArgument => "error: a required argument was not provided\n"

/-- The exit code of the program. -/
def exitCode (f : UsageFault) : UInt32 := if f.isAnswer then 0 else 2

end UsageFault

end SchemaGraph

import SchemaGraph.Command.Line
import SchemaGraph.Command.LogFilter
import SchemaGraph.Config.File
import SchemaGraph.Json.Printer
import SchemaGraph.Report.Paths
import SchemaGraph.Report.Summary

/-!
# Running commands

A run reads the configuration of the working directory, then does what the
command says: it reads a descriptor set from a disk, builds the graph and writes
a report, or it writes a configuration.  Everything a run shows is in its
outcome.  Whatever goes wrong ends the run, with nothing on the output.
-/

namespace SchemaGraph

/-- Why a run fails. -/
inductive RunFault where
  | file (fault : FileFault)
  | build (path : String) (error : BuildError)
  | noElement (name : String)
  /-- The log rules cannot be cut into their parts. -/
  | logRules
  deriving DecidableEq, Repr

namespace RunFault

/-- What went wrong, in one line. -/
def message : RunFault → String
  | .file fault => fault.message
  | .build path _ => "Failed to build graph from " ++ path
  | .noElement name => "No schema element named " ++ name
  | .logRules => "A log rule is cut within a character"

/-- What led to it, the nearest cause first. -/
def causes : RunFault → List String
  | .build _ (.malformed error) => [(BuildError.malformed error).message, error.message]
  | .build _ error => [error.message]
  | .file _ => []
  | .noElement _ => []
  | .logRules => []

/-- A cause with a text in front of its first line, and the others set in as
far as the first one. -/
def indented (head cause : String) : String :=
  head ++ Text.join ("\n" ++ String.ofList (List.replicate head.length ' '))
    (Text.segments '\n' cause)

/-- The causes below each other; several are numbered. -/
def causeLines : List String → List String
  | [cause] => [indented "    " cause]
  | causes => causes.zipIdx.map fun (cause, i) =>
    indented (Text.padLeft 5 (toString i) ++ ": ") cause

/-- Whether the run is broken off, so that there is no report of an error. -/
def isAbrupt : RunFault → Bool
  | .logRules => true
  | _ => false

/-- The report on a failed run. -/
def report (f : RunFault) : String :=
  if f.isAbrupt then f.message
  else
    "Error: " ++ f.message ++
      (if f.causes = [] then ""
       else "\n\nCaused by:\n" ++ Text.join "\n" (causeLines f.causes))

/-- The exit code of a failed run. -/
def exitCode (f : RunFault) : UInt32 := if f.isAbrupt then 101 else 1

end RunFault

/-- What a run shows. -/
structure Outcome where
  /-- The text on the output. -/
  output : String := ""
  /-- The log lines. -/
  log : List LogLine := []
  /-- Whether log lines are coloured. -/
  colorLog : Bool := false
  failure : Option RunFault := none

/-- What a run depends on besides its command and the disk. -/
structure Surroundings where
  /-- The rules asked for on what is logged. -/
  logRules : Option String := none
  /-- Whether the output shows colours. -/
  showsColor : Bool := false
  deriving DecidableEq, Repr

/-- How a command writes its report. -/
structure ReportStyle where
  format : OutputFormat
  color : Bool
  deriving DecidableEq, Repr

namespace ReportStyle

/-- The summary of a graph. -/
def summary (s : ReportStyle) (g : RootedGraph) : String :=
  let summary := Summary.ofGraph g
  match s.format with
  | .json => summary.toJson.pretty ++ "\n"
  | .terminal => summary.terminal s.color ++ "\n"

/-- The schema fields of a graph. -/
def fields (s : ReportStyle) (g : RootedGraph) : String :=
  let fields := SchemaField.all g
  match s.format with
  | .json => (Json.array (fields.map SchemaField.toJson)).pretty ++ "\n"
  | .terminal =>
    Text.join "\n" (g.header s.color :: fields.map (SchemaField.terminal s.color)) ++
      "\n\n  " ++ toString fields.length ++ " fields\n"

/-- The paths between two elements of a graph. -/
def paths (s : ReportStyle) (g : RootedGraph) (source target : String) :
    Except RunFault String :=
  match g.findByName source, g.findByName target with
  | none, _ => .error (.noElement source)
  | some _, none => .error (.noElement target)
  | some a, some b =>
    let report := PathReport.ofPaths g.store source target (g.store.paths a b)
    match s.format with
    | .json => .ok (report.toJson.pretty ++ "\n")
    | .terminal => .ok (report.terminal s.color ++ "\n")

end ReportStyle

namespace Command

variable {m : Type → Type} [Monad m]

/-- Builds the graph that arguments ask for: the log lines, and the graph. -/
def loadGraph (disk : Disk m) (c : Config) (a : GraphArguments) :
    m (List LogLine × Except RunFault RootedGraph) := do
  match ← disk.read a.descriptor with
  | none => return ([], .error (.file (.unreadable a.descriptor)))
  | some bytes =>
    let (events, result) := RootedGraph.logged bytes (a.options c.graph)
    let told := events.map LogLine.ofBuild
    match result with
    | .error e => return (told, .error (.build a.descriptor e))
    | .ok g => return (told ++ [.loaded g], .ok g)

/-- The report on the graph that arguments ask for. -/
def report (disk : Disk m) (c : Config) (a : GraphArguments)
    (write : RootedGraph → Except RunFault String) : m Outcome := do
  match ← loadGraph disk c a with
  | (log, .error fault) => return { log, failure := some fault }
  | (log, .ok g) =>
    match write g with
    | .error fault => return { log, failure := some fault }
    | .ok output => return { log, output }

/-- Writes a default configuration into a directory, unless it has one. -/
def writeDefault (disk : Disk m) (directory : String) : m Outcome := do
  let path := Disk.join directory Config.fileName
  let place := Config.fileName ++ " already exists at " ++ Text.quoted path ++ "\n"
  if ← disk.present path then return { output := place }
  match ← Config.save disk path {} with
  | .error fault => return { failure := some (.file fault) }
  | .ok () =>
    return { output :=
      "Created " ++ Config.fileName ++ " at " ++ Text.quoted path ++ "\n" ++
      "\nSet [graph] root_message to pin the root, then run:\n" ++
      "  protograph inspect <descriptor-set>\n" }

/-- Runs a command under a configuration. -/
def runUnder (disk : Disk m) (c : Config) (s : ReportStyle) : Command → m Outcome
  | .init directory => writeDefault disk (directory.getD ".")
  | .inspect a => report disk c a fun g => .ok (s.summary g)
  | .fields a => report disk c a fun g => .ok (s.fields g)
  | .paths a source target => report disk c a fun g => s.paths g source target

end Command

/-- Runs a command with its options. -/
def Invocation.run {m : Type → Type} [Monad m] (disk : Disk m) (around : Surroundings)
    (i : Invocation) : m Outcome := do
  match ← Config.find disk (← disk.workingDirectory) with
  | .error fault => return { failure := some (.file fault) }
  | .ok c =>
    match LogFilter.ofSettings around.logRules i.verbosity with
    | none => return { failure := some .logRules }
    | some filter =>
      let style : ReportStyle :=
        ⟨.resolve i.format c.output.format, around.showsColor && c.output.color⟩
      let outcome ← i.command.runUnder disk c style
      return { outcome with
        log := outcome.log.filter filter.admits
        colorLog := c.output.color }

end SchemaGraph

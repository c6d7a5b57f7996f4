import SchemaGraph.Command.Run
import SchemaGraph.Command.Usage

/-!
# The program

Runs a command line on the machine's own disk.
-/

namespace SchemaGraph

/-- The machine's disk. -/
def machineDisk : Disk IO where
  workingDirectory := do return (← IO.currentDir).toString
  present path := do
    try
      discard (IO.FS.realPath path)
      return true
    catch _ => return false
  read path := do
    try return some (← IO.FS.readBinFile path).toList
    catch _ => return none
  write path bytes := do
    try
      IO.FS.writeBinFile path ⟨bytes.toArray⟩
      return true
    catch _ => return false

/-- Whether an environment variable is set to something other than zero. -/
def isSet (name : String) : IO Bool := do
  return match ← IO.getEnv name with
    | none => false
    | some value => value != "0"

/-- What the environment says of a run. -/
def surroundings : IO Surroundings := do
  let forced ← isSet "CLICOLOR_FORCE"
  let refused := (← IO.getEnv "NO_COLOR").isSome
  let terminal ← (← IO.getStdout).isTty
  return {
    logRules := ← IO.getEnv "RUST_LOG"
    showsColor := forced || (!refused && terminal) }

/-- Shows what a run shows, and gives the exit code. -/
def showOutcome (o : Outcome) : IO UInt32 := do
  for line in o.log do
    IO.eprintln (line.terminal o.colorLog)
  IO.print o.output
  match o.failure with
  | none => return 0
  | some fault =>
    IO.eprintln fault.report
    return fault.exitCode

end SchemaGraph

open SchemaGraph in
/-- Runs the command line. -/
def main (words : List String) : IO UInt32 := do
  match Invocation.ofWords words with
  | .error fault =>
    if fault.isAnswer then IO.print fault.message else IO.eprint fault.message
    return fault.exitCode
  | .ok invocation => showOutcome (← invocation.run machineDisk (← surroundings))

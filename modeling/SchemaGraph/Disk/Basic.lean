import SchemaGraph.Text.Segment
import SchemaGraph.Text.Utf8
import SchemaGraph.Wire.Basic

/-!
# Disks

What the program asks of the place its files are in, and what it does to the
texts of paths.  A disk answers in some monad, so that the same program runs on
the machine's own disk and on a tree of files in memory.
-/

namespace SchemaGraph

/-- The questions and orders that a disk takes.  Paths that are not absolute
start at the working directory. -/
structure Disk (m : Type → Type) where
  /-- The absolute path of the working directory. -/
  workingDirectory : m String
  /-- Whether there is a file or a directory at a path. -/
  present : String → m Bool
  /-- The bytes of a file, if there is one that can be read. -/
  read : String → m (Option (List UInt8))
  /-- Writes a file anew; whether that succeeds. -/
  write : String → List UInt8 → m Bool

/-- Why a file is of no use.  Each reason names the path as it was asked for. -/
inductive FileFault where
  | unreadable (path : String)
  | unparsable (path : String)
  | unwritable (path : String)
  deriving DecidableEq, Repr

/-- The text of a fault. -/
def FileFault.message : FileFault → String
  | .unreadable path => "Failed to read " ++ path
  | .unparsable path => "Failed to parse " ++ path
  | .unwritable path => "Failed to write " ++ path

namespace Disk

/-- Whether a path starts at the topmost directory. -/
def isAbsolute (path : String) : Bool := Text.startsWith path "/"

/-- The path of a name in a directory; an absolute path leads to the same place
from every directory. -/
def join (directory name : String) : String :=
  if isAbsolute name = true ∨ directory = "" then name
  else if Text.endsWith directory "/" then directory ++ name
  else directory ++ "/" ++ name

/-- Whether a segment of a path names no place of its own. -/
def isIdle (segment : String) : Bool := segment == "" || segment == "."

/-- The segments without the idle ones at the end. -/
def dropIdle (segments : List String) : List String :=
  (segments.reverse.dropWhile isIdle).reverse

/-- The directory that holds the place at an absolute path; the topmost one has
none. -/
def parent? (path : String) : Option String :=
  match dropIdle (Text.segments '/' path) with
  | [] => none
  | segments =>
    match dropIdle segments.dropLast with
    | [] => some "/"
    | above => some (Text.join "/" above)

/-- The directories above an absolute path, nearest first, at most `steps`. -/
def above : (steps : Nat) → String → List String
  | 0, _ => []
  | steps + 1, path =>
    match parent? path with
    | none => []
    | some directory => directory :: above steps directory

/-- A directory and all those above it, nearest first. -/
def ancestors (directory : String) : List String :=
  directory :: above (Text.segments '/' directory).length directory

variable {m : Type → Type} [Monad m]

/-- The text of a file.  Bytes that are no UTF-8 text count as unreadable. -/
def readText (disk : Disk m) (path : String) : m (Except FileFault String) := do
  match ← disk.read path with
  | none => return .error (.unreadable path)
  | some bytes =>
    match Text.Utf8.decode? bytes with
    | none => return .error (.unreadable path)
    | some text => return .ok text

/-- Writes a text. -/
def writeText (disk : Disk m) (path text : String) : m (Except FileFault Unit) := do
  if ← disk.write path (Text.Utf8.encode text) then return .ok ()
  else return .error (.unwritable path)

end Disk

end SchemaGraph

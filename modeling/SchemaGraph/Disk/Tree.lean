import SchemaGraph.Disk.Basic

/-!
# Trees of files

A disk in memory: directories and files below one directory, named by the
segments that lead to them.  A path is walked segment by segment, and only a
directory can be walked from: an idle segment stays, two points go up, any other
name goes down.  Nothing lies outside of the tree.  Names have at most 255
bytes and paths at most 4095, none of them zero.
-/

namespace SchemaGraph

/-- Directories and files.  A directory is an entry without content; the
topmost one has no entry. -/
structure FileTree where
  /-- The absolute path of the topmost directory. -/
  top : String
  /-- The absolute path of the working directory. -/
  workingDirectory : String
  entries : List (List String × Option (List UInt8)) := []

namespace FileTree

/-- Whether a place is a directory. -/
def isDirectory (t : FileTree) (place : List String) : Bool :=
  place.isEmpty || t.entries.lookup place == some none

/-- Whether a text has the length of a name. -/
def isName (segment : String) : Bool := segment.utf8ByteSize ≤ 255

/-- Whether a text has the form of a path. -/
def isPath (path : String) : Bool :=
  path != "" && path.utf8ByteSize ≤ 4095 && !path.toList.contains '\x00'

/-- One step of a walk. -/
def step (t : FileTree) (place : Option (List String)) (segment : String) :
    Option (List String) := do
  let place ← place
  if t.isDirectory place = false ∨ isName segment = false then none
  else if Disk.isIdle segment then some place
  else if segment = ".." then
    match place with
    | [] => none
    | _ => some place.dropLast
  else some (place ++ [segment])

/-- The place below the topmost directory that an absolute path leads to. -/
def walk (t : FileTree) (path : String) : Option (List String) :=
  let top := Text.segments '/' t.top
  let segments := Text.segments '/' path
  if top.isPrefixOf segments then (segments.drop top.length).foldl t.step (some []) else none

/-- The place that a path leads to. -/
def resolve (t : FileTree) (path : String) : Option (List String) :=
  if isPath path then t.walk (Disk.join t.workingDirectory path) else none

/-- Whether there is a file or a directory at a path. -/
def present (t : FileTree) (path : String) : Bool :=
  match t.resolve path with
  | none => false
  | some place => place.isEmpty || (t.entries.lookup place).isSome

/-- The bytes of a file. -/
def read (t : FileTree) (path : String) : Option (List UInt8) :=
  (t.resolve path).bind fun place => (t.entries.lookup place).join

/-- The tree with a file written anew, unless its path leads nowhere or to a
directory. -/
def write (t : FileTree) (path : String) (bytes : List UInt8) : Option FileTree :=
  match t.resolve path with
  | none => none
  | some place =>
    if t.isDirectory place then none
    else some { t with
      entries := (place, some bytes) :: t.entries.filter fun entry => entry.1 != place }

/-- One step of a walk that makes missing directories: the tree with the
directory that a segment leads to, and its place. -/
def enter (state : FileTree × List String) (segment : String) : FileTree × List String :=
  let (t, place) := state
  if Disk.isIdle segment then (t, place)
  else if segment = ".." then (t, place.dropLast)
  else
    let place := place ++ [segment]
    if (t.entries.lookup place).isSome then (t, place)
    else ({ t with entries := (place, none) :: t.entries }, place)

/-- The tree with a file, and the directories on the way to it. -/
def addFile (t : FileTree) (path : String) (bytes : List UInt8) : FileTree :=
  let segments := (Text.segments '/' path).filter fun segment => !Disk.isIdle segment
  let (t, directory) := segments.dropLast.foldl enter (t, [])
  let place := directory ++ segments.getLast?.toList
  { t with entries := (place, some bytes) :: t.entries.filter fun entry => entry.1 != place }

/-- The tree with a directory, and those on the way to it. -/
def addDirectory (t : FileTree) (path : String) : FileTree :=
  ((Text.segments '/' path).foldl enter (t, [])).1

/-- The tree with a directory as its working directory, which is made if it is
missing.  The path of the working directory has no idle segments. -/
def within (t : FileTree) (path : String) : FileTree :=
  let (t, place) := (Text.segments '/' path).foldl enter (t, [])
  { t with workingDirectory := place.foldl Disk.join t.top }

/-- A tree as a disk. -/
def disk : Disk (StateM FileTree) where
  workingDirectory := do return (← get).workingDirectory
  present path := do return (← get).present path
  read path := do return (← get).read path
  write path bytes := do
    match (← get).write path bytes with
    | none => return false
    | some t =>
      set t
      return true

end FileTree

end SchemaGraph

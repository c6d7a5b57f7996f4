import SchemaGraph.Config.Basic
import SchemaGraph.Disk.Basic

/-!
# Configuration files

The configuration of a directory is the file of a fixed name in the nearest
directory at or above it.  A directory in place of that file ends the search
and cannot be read; with no such file the configuration is the default.
-/

namespace SchemaGraph.Config

/-- The name of configuration files. -/
def fileName : String := ".protograph.toml"

variable {m : Type → Type} [Monad m]

/-- The configuration in a file. -/
def load (disk : Disk m) (path : String) : m (Except FileFault Config) := do
  match ← disk.readText path with
  | .error fault => return .error fault
  | .ok text =>
    match read? text with
    | none => return .error (.unparsable path)
    | some c => return .ok c

/-- The configuration of the first directory that has a file for it. -/
def search (disk : Disk m) : List String → m (Except FileFault Config)
  | [] => return .ok {}
  | directory :: rest => do
    let path := Disk.join directory fileName
    if ← disk.present path then load disk path else search disk rest

/-- The configuration of a directory given by its absolute path. -/
def find (disk : Disk m) (directory : String) : m (Except FileFault Config) :=
  search disk (Disk.ancestors directory)

/-- Writes a configuration to a file. -/
def save (disk : Disk m) (path : String) (c : Config) : m (Except FileFault Unit) :=
  disk.writeText path c.text

end SchemaGraph.Config

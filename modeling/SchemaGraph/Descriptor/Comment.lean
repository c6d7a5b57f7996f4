import SchemaGraph.Descriptor.Basic
import SchemaGraph.Text.Blank

/-!
# Comments of declarations

A file records comments by the path of the declaration.  Of one location the
leading comment counts, else the trailing one; of several locations with one
path the last that is not blank.
-/

namespace SchemaGraph

/-- The comment of a location without blanks around it, empty if there is
none. -/
def Location.comment (l : Location) : String :=
  match l.leading with
  | some text => Text.trim text
  | none =>
    match l.trailing with
    | some text => Text.trim text
    | none => ""

/-- The comment of the declaration at a path, empty if there is none. -/
def FileDecl.commentAt (file : FileDecl) (path : List Int32) : String :=
  let comments := (file.locations.filter fun l => l.path = path).map Location.comment
  ((comments.filter (· ≠ "")).getLast?).getD ""

end SchemaGraph

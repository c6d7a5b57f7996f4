import SchemaGraph.Descriptor.Basic

/-!
# The major version of a file

The first segment of the form `v<digits>` decides, looking through the
segments of the package from the last to the first and then through the
directories of the file name from the last to the first.  A number above the
32-bit range is passed over like any other segment.  A file without such a
segment has version one.
-/

namespace SchemaGraph

/-- The largest version number. -/
def maxVersion : Nat := 0x7fffffff

/-- The number that ASCII digits stand for; `none` when there are none or
there is anything else. -/
def digitsNumber? (cs : List Char) : Option Nat :=
  if cs ≠ [] ∧ cs.all (fun c => '0' ≤ c && c ≤ '9') then
    some (cs.foldl (fun n c => 10 * n + (c.toNat - 48)) 0)
  else none

/-- The version that one segment names. -/
def segmentVersion? (segment : String) : Option Nat :=
  match segment.toList with
  | 'v' :: digits =>
    match digitsNumber? digits with
    | some n => if n ≤ maxVersion then some n else none
    | none => none
  | _ => none

/-- The segments that may name a version, in order of precedence. -/
def versionSegments (package name : String) : List String :=
  (Text.segments '.' package).reverse ++ (Text.segments '/' name).dropLast.reverse

/-- The major version of a file by its package and name. -/
def majorVersionOf (package name : String) : Nat :=
  ((versionSegments package name).findSome? segmentVersion?).getD 1

/-- The major version of a file. -/
def FileDecl.majorVersion (file : FileDecl) : Int32 :=
  Int32.ofNat (majorVersionOf file.package file.name)

end SchemaGraph

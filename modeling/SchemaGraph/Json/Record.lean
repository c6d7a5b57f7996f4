import SchemaGraph.Json.Basic

/-!
# Records in JSON

A record is read from an object by the names of its entries, others being
ignored, or from an array by their positions.  A choice between variants is an
object with the variant's name as its only key, and its content, where that has
entries, is an object; a variant without content may be written as its name
alone.

Readers give `none` for a value of another form and for a number out of range.
-/

namespace SchemaGraph.Json

/-- The entries of an object in the order of their names; one that is missing is
`none`. -/
def named? (names : List String) : Json → Option (List (Option Json))
  | .object entries => some (names.map fun name => Json.get? name (.object entries))
  | _ => none

/-- The entries of a record in the order of their names; one that is missing is
`none`. -/
def parts? (names : List String) : Json → Option (List (Option Json))
  | .array items =>
    if items.length ≤ names.length then
      some (names.zipIdx.map fun (_, i) => items[i]?)
    else none
  | v => v.named? names

/-- The name and the content of a variant. -/
def variant? : Json → Option (String × Json)
  | .object [(name, content)] => some (name, content)
  | _ => none

/-- The name of a variant without content. -/
def tag? : Json → Option String
  | .string s => some s
  | .object [(name, .null)] => some name
  | _ => none

/-- A whole number within a range. -/
def within? (low high : Int) : Json → Option Int
  | .int n => if low ≤ n ∧ n ≤ high then some n else none
  | _ => none

/-- A signed number of 32 bits. -/
def int32? (v : Json) : Option Int32 :=
  (v.within? (-0x80000000) 0x7fffffff).map Int32.ofInt

/-- A signed number of 64 bits. -/
def int64? (v : Json) : Option Int64 :=
  (v.within? (-0x8000000000000000) 0x7fffffffffffffff).map Int64.ofInt

/-- An unsigned number of 64 bits. -/
def uint64? (v : Json) : Option UInt64 :=
  (v.within? 0 0xffffffffffffffff).map fun n => UInt64.ofNat n.toNat

/-- A number that is not negative, of 64 bits. -/
def nat? (v : Json) : Option Nat :=
  (v.within? 0 0xffffffffffffffff).map Int.toNat

/-- A double, or the double nearest to a whole number. -/
def float? : Json → Option Binary64
  | .float x => some x
  | .int n => Binary64.ofInt n
  | _ => none

/-- An array of bytes. -/
def bytes? (v : Json) : Option (List UInt8) := do
  let items ← v.array?
  items.mapM fun item => (item.within? 0 255).map fun n => UInt8.ofNat n.toNat

/-- An array of texts. -/
def strings? (v : Json) : Option (List String) := do
  let items ← v.array?
  items.mapM string?

/-- A text that may be null or missing. -/
def optionalString? : Option Json → Option (Option String)
  | none => some none
  | some .null => some none
  | some (.string s) => some (some s)
  | some _ => none

/-- A text that may be missing, which then is empty. -/
def stringOrEmpty? : Option Json → Option String
  | none => some ""
  | some v => v.string?

/-- The bytes as an array of numbers. -/
def ofBytes (bs : List UInt8) : Json := .array (bs.map fun b => nat b.toNat)

end SchemaGraph.Json

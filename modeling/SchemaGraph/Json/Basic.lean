import SchemaGraph.Decimal.Binary64

/-!
# JSON values

Objects keep the order of their entries.  Whole numbers and doubles are
different values: a number is whole when it is written without a fraction and
without an exponent.
-/

namespace SchemaGraph

/-- A JSON value with ordered objects. -/
inductive Json where
  | null
  | bool (b : Bool)
  | int (n : Int)
  | float (x : Binary64)
  | string (s : String)
  | array (items : List Json)
  | object (entries : List (String × Json))
  deriving Inhabited

namespace Json

/-- The value under a key of an object; the last one if the key is repeated. -/
def get? (key : String) : Json → Option Json
  | .object entries => (entries.reverse.find? fun e => e.1 == key).map (·.2)
  | _ => none

/-- The truth value, if it is one. -/
def bool? : Json → Option Bool
  | .bool b => some b
  | _ => none

/-- The text, if it is one. -/
def string? : Json → Option String
  | .string s => some s
  | _ => none

/-- The items, if it is an array. -/
def array? : Json → Option (List Json)
  | .array items => some items
  | _ => none

/-- The entries, if it is an object. -/
def object? : Json → Option (List (String × Json))
  | .object entries => some entries
  | _ => none

/-- A natural number as a value. -/
def nat (n : Nat) : Json := .int n

/-- A text or null. -/
def ofOption (s : Option String) : Json :=
  match s with
  | none => .null
  | some s => .string s

/-- An array of texts. -/
def strings (ss : List String) : Json := .array (ss.map .string)

end Json

end SchemaGraph

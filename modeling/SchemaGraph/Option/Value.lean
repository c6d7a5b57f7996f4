import SchemaGraph.Decimal.Binary64

/-!
# Option values

A custom option is an extension field of an options message.  A value of enum
type is the number it was written with, and a value of message type stays
encoded.
-/

namespace SchemaGraph

/-- The value of a custom option. -/
inductive OptionValue where
  | bool (b : Bool)
  | int (n : Int64)
  | uint (n : UInt64)
  | float (x : Binary64)
  | string (s : String)
  | bytes (bs : List UInt8)
  | enum (n : Int32)
  | message (bs : List UInt8)
  deriving DecidableEq, Repr

/-- A custom option set on a declaration; a repeated option appears once for
each element, in wire order. -/
structure CustomOption where
  name : String
  number : Int32
  value : OptionValue
  deriving DecidableEq, Repr

end SchemaGraph

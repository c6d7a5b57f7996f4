import SchemaGraph.Decimal.Binary64

/-!
# TOML values

The values of a TOML document.  Tables keep how they came to be, because that
decides what may still be added to them:

* a table written in braces is finished;
* a table opened by a header of its own takes keys below that header only;
* a table that exists because a longer header passes through it may still be
  opened by a header, once;
* a table that exists because a dotted key passes through it may take more
  dotted keys, but no header of its own.
-/

namespace SchemaGraph.Toml

/-- How a table came to be. -/
inductive Origin where
  | braces
  | header
  | passed
  | dotted
  deriving DecidableEq, Repr

/-- A value.  Dates and times are one kind, whose content is not kept. -/
inductive Value where
  | string (s : String)
  | integer (n : Int)
  | float (x : Binary64)
  | bool (b : Bool)
  | moment
  | array (items : List Value)
  /-- The tables opened by repeated double-bracket headers, in order. -/
  | tables (items : List Value)
  | table (origin : Origin) (entries : List (String × Value))
  deriving Inhabited

/-- The entries of a table. -/
abbrev Entries := List (String × Value)

end SchemaGraph.Toml

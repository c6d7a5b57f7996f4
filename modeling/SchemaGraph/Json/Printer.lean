import SchemaGraph.Json.Basic
import SchemaGraph.Decimal.Shortest
import SchemaGraph.Text.Hex

/-!
# JSON text

The compact form has no blanks; the pretty form puts every item on a line of
its own, two blanks deeper than what it belongs to, and writes empty arrays
and objects in one piece.  Strings escape the quote, the backslash and what
is below U+0020; all else stands as it is.  A double that is not finite has no
number in JSON and is written `null`.
-/

namespace SchemaGraph.Json

/-- A character inside quotes. -/
def escape (c : Char) : List Char :=
  if c = '"' then ['\\', '"']
  else if c = '\\' then ['\\', '\\']
  else if c = '\n' then ['\\', 'n']
  else if c = '\r' then ['\\', 'r']
  else if c = '\t' then ['\\', 't']
  else if c = '\x08' then ['\\', 'b']
  else if c = '\x0c' then ['\\', 'f']
  else if c.toNat < 32 then '\\' :: 'u' :: Text.Hex.ofNat 4 c.toNat
  else [c]

/-- A text in quotes. -/
def quote (s : String) : String :=
  String.ofList ('"' :: (s.toList.flatMap escape ++ ['"']))

/-- A double, or null. -/
def floatText (x : Binary64) : String :=
  if x.isFinite then Decimal.text x else "null"

mutual

/-- The text without blanks. -/
def compact : Json → String
  | .null => "null"
  | .bool true => "true"
  | .bool false => "false"
  | .int n => toString n
  | .float x => floatText x
  | .string s => quote s
  | .array items => "[" ++ compactItems items ++ "]"
  | .object entries => "\x7b" ++ compactEntries entries ++ "\x7d"

/-- Items with commas between them. -/
def compactItems : List Json → String
  | [] => ""
  | [v] => compact v
  | v :: rest => compact v ++ "," ++ compactItems rest

/-- Entries with commas between them. -/
def compactEntries : List (String × Json) → String
  | [] => ""
  | [(k, v)] => quote k ++ ":" ++ compact v
  | (k, v) :: rest => quote k ++ ":" ++ compact v ++ "," ++ compactEntries rest

end

/-- A line break and the blanks of a depth. -/
def newline (depth : Nat) : String :=
  String.ofList ('\n' :: List.replicate (2 * depth) ' ')

mutual

/-- The indented text of a value that starts at a depth. -/
def prettyAt (depth : Nat) : Json → String
  | .null => "null"
  | .bool true => "true"
  | .bool false => "false"
  | .int n => toString n
  | .float x => floatText x
  | .string s => quote s
  | .array [] => "[]"
  | .array items => "[" ++ prettyItems (depth + 1) items ++ newline depth ++ "]"
  | .object [] => "\x7b\x7d"
  | .object entries => "\x7b" ++ prettyEntries (depth + 1) entries ++ newline depth ++ "\x7d"

/-- Items, each on its own line. -/
def prettyItems (depth : Nat) : List Json → String
  | [] => ""
  | [v] => newline depth ++ prettyAt depth v
  | v :: rest => newline depth ++ prettyAt depth v ++ "," ++ prettyItems depth rest

/-- Entries, each on its own line. -/
def prettyEntries (depth : Nat) : List (String × Json) → String
  | [] => ""
  | [(k, v)] => newline depth ++ quote k ++ ": " ++ prettyAt depth v
  | (k, v) :: rest =>
    newline depth ++ quote k ++ ": " ++ prettyAt depth v ++ "," ++ prettyEntries depth rest

end

/-- The indented text. -/
def pretty (v : Json) : String := prettyAt 0 v

end SchemaGraph.Json

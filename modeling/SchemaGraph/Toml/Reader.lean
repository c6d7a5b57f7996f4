import SchemaGraph.Toml.Number
import SchemaGraph.Toml.Table
import SchemaGraph.Toml.Text

/-!
# Reading TOML documents

A document is a sequence of lines: blank ones and comments, headers, and keys
with their values.  It is read from top to bottom, each line changing the
tables read so far; a line that cannot be read or that defines something twice
spoils the document.
-/

namespace SchemaGraph.Toml

/-- A value that is no array and no table. -/
def readScalar (cs : List Char) : Option (Value × List Char) :=
  match cs with
  | 't' :: 'r' :: 'u' :: 'e' :: rest => some (.bool true, rest)
  | 'f' :: 'a' :: 'l' :: 's' :: 'e' :: rest => some (.bool false, rest)
  | '"' :: _ => (readString cs).map fun (s, rest) => (.string s, rest)
  | '\x27' :: _ => (readString cs).map fun (s, rest) => (.string s, rest)
  | cs =>
    match afterMoment? cs with
    | some rest => some (.moment, rest)
    | none => readNumber cs

mutual

/-- A value, which may nest others to a depth. -/
def readValue : (steps : Nat) → (depth : Nat) → List Char → Option (Value × List Char)
  | 0, _, _ => none
  | steps + 1, depth, cs =>
    match cs with
    | '[' :: rest =>
      match depth with
      | 0 => none
      | depth + 1 => (readItems steps depth rest).map fun (items, rest) => (.array items, rest)
    | '\x7b' :: rest =>
      match depth with
      | 0 => none
      | depth + 1 =>
        match skipBlanks rest with
        | '\x7d' :: rest => some (.table .braces [], rest)
        | rest =>
          (readPairs steps depth [] rest).map fun (entries, rest) =>
            (.table .braces entries, rest)
    | cs => readScalar cs

/-- The items of an array up to its closing bracket, which may follow a
comma. -/
def readItems : (steps : Nat) → (depth : Nat) → List Char → Option (List Value × List Char)
  | 0, _, _ => none
  | steps + 1, depth, cs =>
    match skipGaps false cs with
    | ']' :: rest => some ([], rest)
    | cs =>
      match readValue steps depth cs with
      | none => none
      | some (v, rest) =>
        match skipGaps false rest with
        | ',' :: rest =>
          (readItems steps depth rest).map fun (items, rest) => (v :: items, rest)
        | ']' :: rest => some ([v], rest)
        | _ => none

/-- The entries of a table in braces up to the closing one, added to those read
so far. -/
def readPairs : (steps : Nat) → (depth : Nat) → Entries → List Char →
    Option (Entries × List Char)
  | 0, _, _, _ => none
  | steps + 1, depth, entries, cs =>
    match readKey cs with
    | some (path, key, '=' :: rest) =>
      match readValue steps depth (skipBlanks rest) with
      | none => none
      | some (v, rest) =>
        match entries.assign path key v with
        | none => none
        | some entries =>
          match skipBlanks rest with
          | ',' :: rest => readPairs steps depth entries rest
          | '\x7d' :: rest => some (entries, rest)
          | _ => none
    | _ => none

end

/-- What has been read of a document: its tables, and the header in force. -/
structure Progress where
  entries : Entries := []
  header : List String := []

/-- Takes up one line other than a blank one: the progress after it, and what
follows the line. -/
def readLine (p : Progress) (cs : List Char) : Option (Progress × List Char) :=
  match cs with
  | '#' :: _ => (afterLine? cs).map fun rest => (p, rest)
  | '[' :: '[' :: rest =>
    match readKey rest with
    | some (path, key, ']' :: ']' :: rest) => do
      let entries ← p.entries.openElement path key
      return (⟨entries, path ++ [key]⟩, ← afterLine? rest)
    | _ => none
  | '[' :: rest =>
    match readKey rest with
    | some (path, key, ']' :: rest) => do
      let entries ← p.entries.openTable path key
      return (⟨entries, path ++ [key]⟩, ← afterLine? rest)
    | _ => none
  | cs =>
    match readKey cs with
    | some (path, key, '=' :: rest) => do
      let (v, rest) ← readValue (2 * cs.length + 2) (depthLimit - 1) (skipBlanks rest)
      let entries ← p.entries.assignAt p.header path key v
      return (⟨entries, p.header⟩, ← afterLine? rest)
    | _ => none

/-- The lines of a document. -/
def readLines : (steps : Nat) → Progress → List Char → Option Entries
  | 0, _, _ => none
  | steps + 1, p, cs =>
    match skipBlanks cs with
    | [] => some p.entries
    | cs =>
      match afterNewline? cs with
      | some rest => readLines steps p rest
      | none =>
        match readLine p cs with
        | none => none
        | some (p, rest) => readLines steps p rest

/-- The tables of a document; a byte order mark in front does not count. -/
def read? (text : String) : Option Entries :=
  let cs := text.toList
  let cs := match cs with
    | '\uFEFF' :: rest => rest
    | cs => cs
  readLines (cs.length + 1) {} cs

end SchemaGraph.Toml

import SchemaGraph.Toml.Value

/-!
# Filling TOML tables

What a header and what a key with its value do to the tables read so far.
Each step gives `none` where it would define something twice or reach into
something that is no open table.
-/

namespace SchemaGraph.Toml

/-- Changes the value under a key, or what stands for its absence. -/
def Entries.alter (key : String) (change : Option Value → Option Value) : Entries → Option Entries
  | [] => (change none).map fun v => [(key, v)]
  | (k, v) :: rest =>
    if k = key then (change (some v)).map fun v => (k, v) :: rest
    else (Entries.alter key change rest).map ((k, v) :: ·)

/-- The origin of a table that a path passes through. -/
def Origin.through (dotted : Bool) : Origin := if dotted then .dotted else .passed

/-- Changes the table at the end of a path.  Tables missing on the way are
made.  The path enters the last of several tables, and the path of a dotted key
enters no table that has a header of its own. -/
def Entries.within (dotted : Bool) (change : Origin → Entries → Option Entries) :
    List String → Origin → Entries → Option Entries
  | [], origin, entries => change origin entries
  | key :: rest, _, entries =>
    entries.alter key fun
      | none =>
        let origin := Origin.through dotted
        (Entries.within dotted change rest origin []).map (.table origin)
      | some (.table origin inner) =>
        if origin = .braces ∨ (dotted = true ∧ origin = .header) then none
        else (Entries.within dotted change rest origin inner).map (.table origin)
      | some (.tables items) =>
        match items.getLast? with
        | some (.table origin inner) =>
          (Entries.within dotted change rest origin inner).map fun inner =>
            .tables (items.dropLast ++ [.table origin inner])
        | _ => none
      | some _ => none

/-- Adds an entry under a key that is not taken. -/
def Entries.add (key : String) (v : Value) (entries : Entries) : Option Entries :=
  entries.alter key fun
    | none => some v
    | some _ => none

/-- Assigns a value to a key of a table, which is dotted if the path before its
last part is not empty.  A dotted key ends in a table made by dotted keys. -/
def Entries.assign (path : List String) (key : String) (v : Value) (entries : Entries) :
    Option Entries :=
  entries.within true
    (fun origin inner =>
      if (origin = .dotted) ↔ path = [] then none else inner.add key v) path .header

/-- Assigns a value to a key of the table that the last header opened. -/
def Entries.assignAt (header path : List String) (key : String) (v : Value) (entries : Entries) :
    Option Entries :=
  entries.within false (fun _ inner => inner.assign path key v) header .header

/-- Opens the table of a header. -/
def Entries.openTable (path : List String) (key : String) (entries : Entries) : Option Entries :=
  entries.within false
    (fun _ inner => inner.alter key fun
      | none => some (.table .header [])
      | some (.table .passed inner) => some (.table .header inner)
      | some _ => none) path .header

/-- Opens one more table of a double-bracket header. -/
def Entries.openElement (path : List String) (key : String) (entries : Entries) :
    Option Entries :=
  entries.within false
    (fun _ inner => inner.alter key fun
      | none => some (.tables [.table .header []])
      | some (.tables items) => some (.tables (items ++ [.table .header []]))
      | some _ => none) path .header

end SchemaGraph.Toml

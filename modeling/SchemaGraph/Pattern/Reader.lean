import SchemaGraph.Pattern.CharacterSet
import SchemaGraph.Text.Alphanumeric

/-!
# Reading patterns

A pattern is a choice of sequences.  What stands in a sequence may be repeated,
and a choice in parentheses is a part of its own, which may have a name.  Only
the form of patterns matters here: nothing is ever compared with one.
-/

namespace SchemaGraph.Pattern

/-- A part of a sequence. -/
structure Part where
  depth : Nat := 0
  /-- Whether it matches something, and so can be repeated. -/
  repeatable : Bool := true

/-- What has been read of a choice. -/
structure ChoiceProgress where
  /-- The depths of the finished sequences. -/
  finished : List Nat := []
  /-- The parts of the sequence that is being read, last first. -/
  parts : List Part := []

namespace ChoiceProgress

/-- The depth of the sequence that is being read. -/
def sequenceDepth (p : ChoiceProgress) : Nat := depthAround (p.parts.map Part.depth)

/-- The depth of the choice. -/
def depth (p : ChoiceProgress) : Nat := depthAround (p.sequenceDepth :: p.finished)

/-- One more part. -/
def add (p : ChoiceProgress) (part : Part) : ChoiceProgress :=
  { p with parts := part :: p.parts }

/-- The next sequence. -/
def next (p : ChoiceProgress) : ChoiceProgress :=
  { finished := p.sequenceDepth :: p.finished }

/-- The last part repeated, if there is one to repeat. -/
def repeatLast (p : ChoiceProgress) : Option ChoiceProgress :=
  match p.parts with
  | [] => none
  | part :: parts =>
    if part.repeatable then some { p with parts := { depth := part.depth + 1 } :: parts }
    else none

end ChoiceProgress

/-- Whether a text can be the name of a group. -/
def isGroupName : List Char → Bool
  | [] => false
  | first :: rest =>
    (first == '_' || Text.isAlphabetic first) &&
      rest.all fun c => ['_', '.', '[', ']'].contains c || Text.isAlphanumeric c

/-- What stands between an opening parenthesis and the choice in it. -/
inductive Opening where
  /-- The beginning of a group. -/
  | group (modes : Modes) (name : Option (List Char))
  /-- Flags for what follows, without a group. -/
  | alone (modes : Modes)

/-- Reads the name of a group. -/
def readGroupName (m : Modes) (cs : List Char) : Option (Opening × List Char) :=
  let name := cs.takeWhile (· != '>')
  match cs.dropWhile (· != '>') with
  | [] => none
  | _ :: rest => if isGroupName name then some (.group m (some name), rest) else none

/-- Reads what follows an opening parenthesis. -/
def readOpening (m : Modes) (cs : List Char) : Option (Opening × List Char) :=
  match m.skip cs with
  | '?' :: 'P' :: '<' :: rest => readGroupName m rest
  | '?' :: '<' :: rest => readGroupName m rest
  | '?' :: rest =>
    (readFlags m [] rest).map fun (flags, rest) =>
      (if flags.opensGroup then .group flags.modes none else .alone flags.modes, rest)
  | cs => some (.group m none, cs)

/-- What holds where a pattern is being read. -/
structure Progress where
  modes : Modes := {}
  /-- The names of groups so far. -/
  names : List (List Char) := []
  /-- The choices around, nearest first, with their modes. -/
  around : List (Modes × ChoiceProgress) := []
  choice : ChoiceProgress := {}

namespace Progress

/-- One more part of the sequence. -/
def add (p : Progress) (part : Part) : Progress := { p with choice := p.choice.add part }

/-- Begins a group, unless it has the name of another one. -/
def enter (p : Progress) : Opening → Option Progress
  | .alone modes => some { p.add { repeatable := false } with modes }
  | .group modes name =>
    if name.any p.names.contains then none
    else some {
      modes
      names := name.toList ++ p.names
      around := (p.modes, p.choice) :: p.around }

/-- Ends a group, if one is open. -/
def leave (p : Progress) : Option Progress :=
  match p.around with
  | [] => none
  | (modes, choice) :: around =>
    some { p with modes, around, choice := choice.add { depth := 1 + p.choice.depth } }

/-- Takes up the next part, if it can stand there, and gives what follows. -/
def step (p : Progress) : List Char → Option (Progress × List Char)
  | [] => none
  | '(' :: rest =>
    match readOpening p.modes rest with
    | none => none
    | some (opening, rest) => (p.enter opening).map fun p => (p, rest)
  | ')' :: rest => p.leave.map fun p => (p, rest)
  | '|' :: rest => some ({ p with choice := p.choice.next }, rest)
  | '[' :: rest =>
    match readComplement p.modes rest with
    | none => none
    | some rest =>
      (readSet p.modes (rest.length + 1) [] {} rest).map fun (depth, rest) =>
        (p.add { depth }, rest)
  | '\x7b' :: _ => none
  | '.' :: rest => if p.modes.unicode then some (p.add {}, rest) else none
  | '\\' :: rest =>
    match readEscape p.modes rest with
    | none => none
    | some (atom, rest) => if atom.isAllowed p.modes then some (p.add {}, rest) else none
  | c :: rest =>
    if c = '?' ∨ c = '*' ∨ c = '+' then
      p.choice.repeatLast.map fun choice =>
        ({ p with choice }, if rest.head? = some '?' then rest.drop 1 else rest)
    else some (p.add {}, rest)

/-- Reads a pattern to its end, and gives its depth. -/
def finish : (steps : Nat) → Progress → List Char → Option Nat
  | 0, _, _ => none
  | steps + 1, p, cs =>
    match p.modes.skip cs with
    | [] => if p.around.isEmpty then some p.choice.depth else none
    | cs =>
      match p.step cs with
      | none => none
      | some (p, rest) => finish steps p rest

end Progress

/-- Whether a text without closing braces is a pattern. -/
def isPattern (cs : List Char) : Bool :=
  match Progress.finish (cs.length + 1) {} cs with
  | none => false
  | some depth => decide (depth ≤ nestingLimit)

end SchemaGraph.Pattern

import SchemaGraph.Pattern.Atom
import SchemaGraph.Pattern.Depth

/-!
# Sets of characters

Sets in brackets.  The members of a set are characters, ranges, families, named
classes and other sets.  Two ampersands, hyphens or tildes stand between the
operands of an intersection and of the two kinds of difference.
-/

namespace SchemaGraph.Pattern

/-- The names of classes of ASCII characters. -/
def classNames : List String :=
  ["alnum", "alpha", "ascii", "blank", "cntrl", "digit", "graph", "lower", "print", "punct",
    "space", "upper", "word", "xdigit"]

/-- Reads a named class after its opening bracket: whether it is negated, and
what follows. -/
def readClass (cs : List Char) : Option (Bool × List Char) :=
  match cs with
  | ':' :: rest =>
    let (negated, rest) := match rest with
      | '^' :: rest => (true, rest)
      | rest => (false, rest)
    match rest.dropWhile (· != ':') with
    | ':' :: ']' :: after =>
      if classNames.contains (String.ofList (rest.takeWhile (· != ':'))) then
        some (negated, after)
      else none
    | _ => none
  | _ => none

/-- Reads a character or an escape in a set. -/
def readSetAtom (m : Modes) : List Char → Option (Atom × List Char)
  | [] => none
  | '\\' :: rest => readEscape m rest
  | c :: rest => some (.character c false, rest)

/-- Reads a member of a set that is no class and no set, and gives what follows.
A hyphen after a character makes a range of it, if it is not the last character
of the set and no operator. -/
def readMember (m : Modes) (cs : List Char) : Option (List Char) :=
  match readSetAtom m cs with
  | none => none
  | some (first, rest) =>
    match m.skip rest with
    | [] => none
    | c :: after =>
      if c != '-' || m.ahead after == some ']' || m.ahead after == some '-' then
        if first.isMember m then some (c :: after) else none
      else
        match first, readSetAtom m (m.skip after) with
        | .character low asByte, some (.character high asByte', rest) =>
          if low ≤ high ∧ (Atom.character low asByte).isMember m = true ∧
              (Atom.character high asByte').isMember m = true then some rest
          else none
        | _, _ => none

/-- What has been read of a set. -/
structure SetProgress where
  /-- Whether only hyphens have been read.  Hyphens at the front are members, and
  so is a bracket that would close a set without members. -/
  fresh : Bool := true
  /-- The depths of the members of the operand. -/
  members : List Nat := []
  /-- The depth of the operands before it, if there are any. -/
  left : Option Nat := none

namespace SetProgress

/-- The depth of all operands together. -/
def depth (p : SetProgress) : Nat :=
  match p.left with
  | none => depthAround p.members
  | some left => depthAround [left, depthAround p.members]

/-- One more member. -/
def add (p : SetProgress) (depth : Nat) : SetProgress :=
  { p with fresh := false, members := depth :: p.members }

/-- The next operand. -/
def next (p : SetProgress) : SetProgress :=
  { fresh := false, left := some p.depth }

end SetProgress

/-- Reads a caret after an opening bracket, and gives what follows.  The
complement of a set has members that are no ASCII characters. -/
def readComplement (m : Modes) (cs : List Char) : Option (List Char) :=
  match m.skip cs with
  | '^' :: rest => if m.unicode then some rest else none
  | cs => some cs

/-- Reads a set up to the bracket that closes the outermost one, with the sets
around it, nearest first.  It gives the depth of the set and what follows. -/
def readSet (m : Modes) : (steps : Nat) → (around : List SetProgress) → SetProgress →
    List Char → Option (Nat × List Char)
  | 0, _, _, _ => none
  | steps + 1, around, p, cs =>
    match m.skip cs with
    | [] => none
    | '[' :: rest =>
      match readClass rest with
      | some (negated, rest) =>
        if m.unicode || !negated then readSet m steps around (p.add 0) rest else none
      | none =>
        match readComplement m rest with
        | none => none
        | some rest => readSet m steps (p :: around) {} rest
    | ']' :: rest =>
      if p.fresh && p.members.isEmpty then readSet m steps around (p.add 0) rest
      else
        match around with
        | [] => some (1 + p.depth, rest)
        | outer :: around => readSet m steps around (outer.add (1 + p.depth)) rest
    | c :: rest =>
      if p.fresh && c == '-' then
        readSet m steps around { p.add 0 with fresh := true } rest
      else if ['&', '-', '~'].contains c && rest.head? == some c then
        readSet m steps around p.next (rest.drop 1)
      else
        match readMember m (c :: rest) with
        | none => none
        | some rest => readSet m steps around (p.add 0) rest

end SchemaGraph.Pattern

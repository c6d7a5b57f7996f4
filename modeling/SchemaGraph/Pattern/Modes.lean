import SchemaGraph.Text.Blank

/-!
# Modes of patterns

How the parts of a pattern are to be taken.  Flags change the modes from where
they stand up to the end of the group around them.
-/

namespace SchemaGraph.Pattern

/-- The modes that decide whether a text is a pattern. -/
structure Modes where
  /-- Whether blanks and comments may stand between the parts. -/
  spaced : Bool := false
  /-- Whether the parts stand for Unicode characters, and not for bytes. -/
  unicode : Bool := true
  deriving DecidableEq, Repr

/-- The list without the blanks and comments at its front.  A comment goes from
a number sign to the end of its line. -/
def dropGaps : (inComment : Bool) → List Char → List Char
  | _, [] => []
  | true, c :: rest => dropGaps (c != '\n') rest
  | false, c :: rest =>
    if Text.isBlank c then dropGaps false rest
    else if c = '#' then dropGaps true rest
    else c :: rest

/-- The first character that is no blank, and no number sign if it is the first
one of these: a comment is not passed over. -/
def firstMark : (inComment : Bool) → List Char → Option Char
  | _, [] => none
  | inComment, c :: rest =>
    if Text.isBlank c then firstMark inComment rest
    else if c = '#' ∧ inComment = false then firstMark true rest
    else some c

namespace Modes

/-- What is left of a pattern from the next part on. -/
def skip (m : Modes) (cs : List Char) : List Char :=
  if m.spaced then dropGaps false cs else cs

/-- The character that a hyphen in a set is told by. -/
def ahead (m : Modes) (cs : List Char) : Option Char :=
  if m.spaced then firstMark false cs else cs.head?

/-- The modes with the one that a letter stands for on or off.  The letters of
other modes, which say what matches, are known too. -/
def assign (m : Modes) (letter : Char) (on : Bool) : Option Modes :=
  if letter = 'x' then some { m with spaced := on }
  else if letter = 'u' then some { m with unicode := on }
  else if ['i', 'm', 's', 'R', 'U'].contains letter then some m
  else none

end Modes

/-- Flags as they follow an opening parenthesis and a question mark. -/
structure Flags where
  /-- The modes that they set. -/
  modes : Modes
  /-- Whether they begin a group, and do not stand alone. -/
  opensGroup : Bool

/-- Reads flags with the character that ends them.  A hyphen turns those after
it off.  No flag is there twice, one follows the hyphen, and flags that stand
alone are some. -/
def readFlags (m : Modes) (seen : List Char) : List Char → Option (Flags × List Char)
  | [] => none
  | ':' :: rest =>
    if seen.head? = some '-' then none else some (⟨m, true⟩, rest)
  | ')' :: rest =>
    if seen = [] ∨ seen.head? = some '-' then none else some (⟨m, false⟩, rest)
  | c :: rest =>
    if seen.contains c then none
    else if c = '-' then readFlags m (c :: seen) rest
    else
      match m.assign c (!seen.contains '-') with
      | none => none
      | some m => readFlags m (c :: seen) rest

end SchemaGraph.Pattern

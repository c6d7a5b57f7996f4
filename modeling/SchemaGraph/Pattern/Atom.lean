import SchemaGraph.Pattern.Modes
import SchemaGraph.Text.Hex

/-!
# Atoms of patterns

The smallest parts of a pattern: characters, families of characters and
assertions on a place, as they are written after a backslash.

A pattern stands within braces and so has no closing brace.  The escapes that
need one are no part of a pattern.
-/

namespace SchemaGraph.Pattern

/-- What an escape stands for. -/
inductive Atom where
  /-- A character; whether it is written as two hexadecimal digits. -/
  | character (c : Char) (asByte : Bool)
  /-- The digits, blanks or word characters, or all others. -/
  | family (negated : Bool)
  /-- The characters of a general category, or all others. -/
  | category
  /-- A place in the text; whether words are looked at for it. -/
  | place (ofWords : Bool)
  deriving DecidableEq, Repr

namespace Atom

/-- Whether an atom may stand by itself.  A matcher goes from byte to byte and
finds no end of a word of Unicode characters.  Without Unicode, an atom must
not match bytes that are no ASCII characters. -/
def isAllowed (m : Modes) : Atom → Bool
  | character c asByte => m.unicode || !asByte || decide (c.toNat < 0x80)
  | family negated => m.unicode || !negated
  | category => m.unicode
  | place ofWords => !(m.unicode && ofWords)

/-- Whether an atom may be a member of a set. -/
def isMember (m : Modes) : Atom → Bool
  | character c _ => m.unicode || decide (c.toNat < 0x80)
  | family negated => m.unicode || !negated
  | category => m.unicode
  | place _ => false

end Atom

/-- The number that hexadecimal digits stand for, as many as are asked for, and
what follows. -/
def readHex (m : Modes) : (digits : Nat) → (value : Nat) → List Char → Option (Nat × List Char)
  | 0, value, cs => some (value, cs)
  | digits + 1, value, cs =>
    match m.skip cs with
    | [] => none
    | c :: rest =>
      match Text.Hex.value? c with
      | none => none
      | some digit => readHex m digits (16 * value + digit) rest

/-- The character with a number of so many hexadecimal digits. -/
def readNumbered (m : Modes) (digits : Nat) (cs : List Char) : Option (Atom × List Char) :=
  match readHex m digits 0 cs with
  | none => none
  | some (code, rest) =>
    if code.isValidChar then some (.character (Char.ofNat code) (digits == 2), rest) else none

/-- The general category that a single letter names. -/
def readCategory (m : Modes) (cs : List Char) : Option (Atom × List Char) :=
  match m.skip cs with
  | [] => none
  | c :: rest =>
    if ['c', 'l', 'm', 'n', 'p', 's', 'z'].contains c.toLower then some (.category, rest)
    else none

/-- Whether a backslash before a character takes its meaning away: ASCII
characters but letters, digits and angle brackets. -/
def isPlainEscape (c : Char) : Bool :=
  decide (c.toNat < 0x80) && !c.isAlphanum && c != '<' && c != '>'

/-- Reads what follows a backslash. -/
def readEscape (m : Modes) : List Char → Option (Atom × List Char)
  | [] => none
  | c :: rest =>
    if c = 'x' then readNumbered m 2 rest
    else if c = 'u' then readNumbered m 4 rest
    else if c = 'U' then readNumbered m 8 rest
    else if c = 'p' ∨ c = 'P' then readCategory m rest
    else if c = 'd' ∨ c = 's' ∨ c = 'w' then some (.family false, rest)
    else if c = 'D' ∨ c = 'S' ∨ c = 'W' then some (.family true, rest)
    else if c = 'A' ∨ c = 'z' then some (.place false, rest)
    else if c = 'b' ∨ c = 'B' ∨ c = '<' ∨ c = '>' then some (.place true, rest)
    else if c = 'a' then some (.character '\x07' false, rest)
    else if c = 'f' then some (.character '\x0c' false, rest)
    else if c = 'n' then some (.character '\n' false, rest)
    else if c = 'r' then some (.character '\r' false, rest)
    else if c = 't' then some (.character '\t' false, rest)
    else if c = 'v' then some (.character '\x0b' false, rest)
    else if isPlainEscape c then some (.character c false, rest)
    else none

end SchemaGraph.Pattern

import SchemaGraph.Text.Hex

/-!
# Writing TOML strings

A text is written in the first of four forms that shows it without escapes:
between double quotes, between single quotes, as a block between three double
quotes, as a block between three single quotes.  A text that none of them shows
is written with escapes between double quotes, as a block if it has several
lines.  A tab stands as itself in every form but those in double quotes, which
escape it.
-/

namespace SchemaGraph.Toml

/-- The length of the longest run of a character, where the current run has a
length already. -/
def longestRun (c : Char) : Nat → List Char → Nat
  | run, [] => run
  | run, d :: rest =>
    if d = c then longestRun c (run + 1) rest else max run (longestRun c 0 rest)

/-- Whether a character can be written only as an escape. -/
def needsCode (c : Char) : Bool :=
  (c.toNat < 32 && c != '\t' && c != '\n') || c.toNat == 127

/-- The escape of a character. -/
def escape (c : Char) : List Char :=
  if c = '\x08' then ['\\', 'b']
  else if c = '\t' then ['\\', 't']
  else if c = '\n' then ['\\', 'n']
  else if c = '\x0c' then ['\\', 'f']
  else if c = '\r' then ['\\', 'r']
  else if c = '"' then ['\\', '"']
  else if c = '\\' then ['\\', '\\']
  else ['\\', 'u'] ++ (Text.Hex.ofNat 4 c.toNat).map Char.toUpper

/-- The text between double quotes, where up to `quotes` quotes in a row stand
as themselves, and line feeds too if `lines`.  `run` quotes come just before. -/
def escapeAll (quotes : Nat) (lines : Bool) : (run : Nat) → List Char → List Char
  | _, [] => []
  | run, c :: rest =>
    if c = '"' then
      if run < quotes then c :: escapeAll quotes lines (run + 1) rest
      else escape c ++ escapeAll quotes lines 0 rest
    else if (needsCode c || c == '\t' || c == '\\') || (c == '\n' && !lines) then
      escape c ++ escapeAll quotes lines 0 rest
    else c :: escapeAll quotes lines 0 rest

/-- The text with a mark on either side. -/
def enclose (mark : String) (cs : List Char) : String := mark ++ String.ofList cs ++ mark

/-- A text as a TOML string. -/
def quote (s : String) : String :=
  let cs := s.toList
  let codes := cs.any needsCode
  let backslash := cs.contains '\\'
  let lines := cs.contains '\n'
  let doubles := longestRun '"' 0 cs
  let singles := longestRun '\x27' 0 cs
  let opening := if lines then ['\n'] else []
  if !codes && !backslash && doubles == 0 && !lines then enclose "\"" (escapeAll 0 false 0 cs)
  else if !codes && singles == 0 && !lines then enclose "\x27" cs
  else if !codes && !backslash && doubles ≤ 2 then
    enclose "\"\"\"" (opening ++ escapeAll 2 true 0 cs)
  else if !codes && singles ≤ 2 then enclose "\x27\x27\x27" (opening ++ cs)
  else if lines then enclose "\"\"\"" (opening ++ escapeAll 2 true 0 cs)
  else enclose "\"" (escapeAll 0 false 0 cs)

end SchemaGraph.Toml

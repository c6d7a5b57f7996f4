import SchemaGraph.Command.Log
import SchemaGraph.Pattern.Reader
import SchemaGraph.Text.Alphanumeric
import SchemaGraph.Text.Blank
import SchemaGraph.Text.Utf8

/-!
# Log filters

A filter is a list of rules.  A rule sets how severe events must be, for all of
them, for those whose origin starts with a given text, or for those that have a
value of a given name.  Of the rules about an event the most specific one
decides, and an event that no rule is about is not told.

Rules are written with commas between them, each as

    origin[span{value}]=level

where every part but one may be missing, and a value is a name, or a name, an
equals sign and a number or a pattern.  Spans enclose events; here no event lies
within one, so a rule that names a span, or the content of a value, is about no
event.
-/

namespace SchemaGraph

/-- What a rule says, and of which events. -/
structure LogRule where
  /-- What the origin of an event must start with. -/
  origin : Option String := none
  /-- The name of a value that an event must have. -/
  value : Option String := none
  /-- Whether the rule is about what happens within a span. -/
  inSpan : Bool := false
  /-- How severe events must be, or that none is told. -/
  threshold : Option Severity := some .trace
  deriving DecidableEq, Repr

namespace LogRule

/-- Whether the rule is about an event.  The message counts as a value. -/
def isAbout (rule : LogRule) (l : LogLine) : Bool :=
  !rule.inSpan &&
  (match rule.origin with
   | none => true
   | some origin => Text.startsWith l.origin origin) &&
  (match rule.value with
   | none => true
   | some name => name == "message" || l.values.any fun value => value.1 == name)

/-- The length of the text that origins must start with. -/
def reach (rule : LogRule) : Nat := (rule.origin.getD "").length

/-- Whether a rule goes before another one that is about the same event and
stands before it: it does not ask for less of the origin, then it does not ask
for less of the values, then its value does not come earlier in order. -/
def overrides (rule other : LogRule) : Bool :=
  if rule.reach ≠ other.reach then decide (other.reach < rule.reach)
  else
    match rule.value, other.value with
    | _, none => true
    | none, some _ => false
    | some a, some b => !decide (a < b)

/-- Whether the rule tells events of a severity. -/
def tells (rule : LogRule) (s : Severity) : Bool :=
  match rule.threshold with
  | none => false
  | some least => decide (s.rank ≤ least.rank)

/-- The threshold that a digit from 0 to 5 names. -/
def ofDigit? : Nat → Option (Option Severity)
  | 0 => some none
  | 1 => some (some .error)
  | 2 => some (some .warn)
  | 3 => some (some .info)
  | 4 => some (some .debug)
  | 5 => some (some .trace)
  | _ => none

/-- The number below `2 ^ 64` that digits stand for. -/
def number? (digits : List Char) : Option Nat :=
  let n := digits.foldl (fun n c => 10 * n + (c.toNat - 48)) 0
  if digits.isEmpty = false ∧ digits.all (fun c => '0' ≤ c && c ≤ '9') = true ∧
      n < 0x10000000000000000 then
    some n
  else none

/-- The threshold that a word in either case names, or a number, which may have
a plus sign. -/
def level? (cs : List Char) : Option (Option Severity) :=
  let digits := match cs with
    | '+' :: rest => rest
    | cs => cs
  match (number? digits).bind ofDigit? with
  | some threshold => some threshold
  | none =>
    match (String.ofList cs).toLower with
    | "off" => some none
    | "error" => some (some .error)
    | "warn" => some (some .warn)
    | "info" => some (some .info)
    | "debug" => some (some .debug)
    | "trace" => some (some .trace)
    | _ => none

/-- Why a text is no rule. -/
inductive Fault where
  /-- It has not the form of a rule. -/
  | unreadable
  /-- A part of it would be cut off within a character. -/
  | severed
  deriving DecidableEq, Repr

/-- A part of a text as it is written, from a place on and of a size, both
counted in bytes. -/
def part (written : List Char) (place size : Nat) : Except Fault (List Char) :=
  match (Text.Utf8.drop? place written).bind (Text.Utf8.take? size) with
  | none => .error .severed
  | some cs => .ok cs

/-- Reads the threshold at a place; nothing there stands for all events. -/
def readLevel (written : List Char) (place : Nat) (rule : LogRule) : Except Fault LogRule :=
  match Text.Utf8.drop? place written with
  | none => .error .severed
  | some [] => .ok rule
  | some cs =>
    match level? cs with
    | none => .error .unreadable
    | some threshold => .ok { rule with threshold }

/-- Whether a character may start an origin. -/
def startsOrigin (c : Char) : Bool :=
  c == '-' || c == ':' || c == '_' || Text.isAlphanumeric c

/-- Whether a text is a number, which may have a sign, a point and an exponent,
or the word for one that is not finite. -/
def isNumber (cs : List Char) : Bool :=
  let unsigned := fun (cs : List Char) => match cs with
    | '-' :: rest => rest
    | '+' :: rest => rest
    | cs => cs
  let digits := unsigned cs
  let whole := digits.takeWhile Char.isDigit
  let rest := digits.drop whole.length
  let (fraction, rest) := match rest with
    | '.' :: rest => (rest.takeWhile Char.isDigit, rest.dropWhile Char.isDigit)
    | rest => ([], rest)
  let ended := match rest with
    | [] => true
    | c :: rest => (c == 'e' || c == 'E') && !(unsigned rest).isEmpty &&
      (unsigned rest).all Char.isDigit
  ["inf", "infinity", "nan"].contains (String.ofList digits).toLower ||
    (!(whole ++ fraction).isEmpty && ended)

/-- Adds what stands in braces: the name of a value, or the name and after an
equals sign the content, which is a number or a pattern. -/
def withValue (rule : LogRule) (cs : List Char) : Except Fault LogRule :=
  let name := cs.takeWhile (· != '=')
  let rule := { rule with value := some (String.ofList name) }
  match cs.drop name.length with
  | [] => if name = [] then .error .unreadable else .ok rule
  | _ :: rest =>
    let content := rest.takeWhile (· != '=')
    if isNumber content || Pattern.isPattern content then .ok { rule with inSpan := true }
    else .error .unreadable

/-- Reads what follows a closing bracket, which ends before a place. -/
def readEnd (written : List Char) (place : Nat) (rule : LogRule) :
    List Char → Except Fault LogRule
  | [] => .ok rule
  | c :: _ => if c = '=' then readLevel written (place + 1) rule else .error .unreadable

/-- Reads what follows an opening brace: a value, and the closing brace and
bracket. -/
def readValue (written : List Char) (place : Nat) (rule : LogRule) (cs : List Char) :
    Except Fault LogRule :=
  let inside := cs.takeWhile (· != '\x7d')
  let size := Text.Utf8.size inside
  match cs.drop inside.length with
  | [] => .error .unreadable
  | _ :: rest => do
    let rule ← rule.withValue (← part written place size)
    match rest with
    | ']' :: rest => readEnd written (place + size + 2) rule rest
    | _ => .error .unreadable

/-- Reads what follows an opening bracket: the name of a span, and a value in
braces. -/
def readSpan (written : List Char) (place : Nat) (rule : LogRule) (cs : List Char) :
    Except Fault LogRule :=
  let name := cs.takeWhile fun c => c != ']' && c != '\x7b'
  let size := Text.Utf8.size name
  match cs.drop name.length with
  | [] => .error .unreadable
  | c :: rest => do
    let span ← part written place size
    if c = ']' then readEnd written (place + size + 1) { rule with inSpan := true } rest
    else readValue written (place + size + 1) { rule with inSpan := !span.isEmpty } rest

/-- The rule in a text.  The form is that of the text without blanks at its
ends, but the parts are cut out of the whole text at the places that they have
in that form, and so blanks at its ends belong to them. -/
def ofText (text : String) : Except Fault LogRule :=
  let written := text.toList
  let cs := (Text.trim text).toList
  let front := cs.takeWhile fun c => c != '=' && c != '['
  let size := Text.Utf8.size front
  match cs with
  | [] => .error .unreadable
  | '[' :: rest => readSpan written 1 {} rest
  | first :: _ =>
    if startsOrigin first = false then .error .unreadable
    else
      match cs.drop front.length with
      | [] =>
        match level? written with
        | some threshold => .ok { threshold }
        | none => .ok { origin := some text }
      | c :: rest => do
        let origin := some (String.ofList (← part written 0 size))
        if c = '=' then readLevel written (size + 1) { origin }
        else readSpan written (size + 1) { origin } rest

end LogRule

/-- The rules on what is told. -/
abbrev LogFilter := List LogRule

namespace LogFilter

/-- The filter that tells events of a severity and graver ones. -/
def ofSeverity (s : Severity) : LogFilter := [{ threshold := some s }]

/-- The rule that decides on an event. -/
def ruleFor (f : LogFilter) (l : LogLine) : Option LogRule :=
  (f.filter fun rule => rule.isAbout l).foldl (fun best rule =>
    match best with
    | none => some rule
    | some other => if rule.overrides other then some rule else best) none

/-- Whether an event is told. -/
def admits (f : LogFilter) (l : LogLine) : Bool :=
  match f.ruleFor l with
  | none => false
  | some rule => rule.tells l.severity

/-- The filter in a text of rules with commas between them, where nothing
between two commas is no rule.  A text without rules lets errors through.  The
first rule that is none decides what is wrong with the text. -/
def ofText (text : String) : Except LogRule.Fault LogFilter :=
  match (Text.segments ',' text).filter (· != "") with
  | [] => .ok (ofSeverity .error)
  | rules => rules.mapM LogRule.ofText

/-- The filter of a run: the one asked for, if it can be read, else the one of
the verbosity.  There is none if a rule would be cut within a character. -/
def ofSettings (asked : Option String) (verbosity : Nat) : Option LogFilter :=
  match asked.map ofText with
  | some (.ok filter) => some filter
  | some (.error .severed) => none
  | _ => some (ofSeverity (.ofVerbosity verbosity))

end LogFilter

end SchemaGraph

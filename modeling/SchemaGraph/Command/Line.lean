import SchemaGraph.Command.Basic

/-!
# Command lines

Reading the words of a command line.  The words up to the name of a command are
the program's own options; those after it belong to the command, which knows
the program's options too.

* An option takes its value from the word after it or, behind an equals sign,
  from its own word.  A value that starts with a hyphen needs the equals sign.
* Letters may be bundled behind one hyphen.
* After a word of two hyphens every word is an operand.
* No option but the verbosity may be repeated among the words of one part.

A value is looked at only when the next option or operand comes, or at the end;
a word that is no option is refused at once.  So of two faults the later one may
be reported.
-/

namespace SchemaGraph

/-- Why a command line is not run. -/
inductive UsageFault where
  /-- Help was asked for. -/
  | help
  /-- The version was asked for. -/
  | version
  /-- Nothing was given, which is answered with help. -/
  | nothing
  /-- Options without a command. -/
  | missingCommand
  | unknownCommand
  | unknownArgument
  /-- A value behind the equals sign of an option that takes none. -/
  | unwantedValue
  /-- A value that is missing or not allowed. -/
  | badValue
  | repeated
  | missingArgument
  deriving DecidableEq, Repr

namespace CommandLine

/-- The options that take a value. -/
inductive ValueOption where
  | format
  | message
  | file
  | source
  | target
  deriving DecidableEq, Repr

/-- The options that take none. -/
inductive Flag where
  | verbose
  | noFlatten
  | help
  | version
  deriving DecidableEq, Repr

/-- The names of commands. -/
inductive CommandName where
  | init
  | inspect
  | fields
  | paths
  | help
  deriving DecidableEq, Repr

/-- The words that one part of a command line may have. -/
structure Grammar where
  commands : List (String × CommandName) := []
  options : List (String × ValueOption)
  flags : List (String × Flag)
  letters : List (Char × Flag)
  /-- The number of operands. -/
  operands : Nat := 0

/-- The words before the name of a command. -/
def programGrammar : Grammar where
  commands :=
    [("init", .init), ("inspect", .inspect), ("fields", .fields), ("paths", .paths),
     ("help", .help)]
  options := [("format", .format)]
  flags := [("verbose", .verbose), ("help", .help), ("version", .version)]
  letters := [('v', .verbose), ('h', .help), ('V', .version)]

/-- The words after the name of a command. -/
def CommandName.grammar (name : CommandName) : Grammar where
  options :=
    [("format", .format)] ++
    (match name with
     | .init | .help => []
     | .inspect | .fields => [("message", .message), ("file", .file)]
     | .paths =>
       [("message", .message), ("file", .file), ("from", .source), ("to", .target)])
  flags :=
    [("verbose", .verbose), ("help", .help)] ++
    (match name with
     | .init | .help => []
     | .inspect | .fields | .paths => [("no-flatten", .noFlatten)])
  letters := [('v', .verbose), ('h', .help)]
  operands := 1

/-- What has been read of one part of a command line. -/
structure Reading where
  values : List (ValueOption × String) := []
  noFlatten : Bool := false
  verbosity : Nat := 0
  operand : Option String := none
  /-- The number of operands, with one not looked at yet. -/
  operands : Nat := 0
  /-- The option, or the operand if none, whose value has not been looked at; the
  value itself may still be missing. -/
  pending : Option (Option ValueOption × Option String) := none
  deriving DecidableEq, Repr

namespace Reading

/-- Whether the next word may be the value of an option. -/
def awaits (r : Reading) : Bool :=
  match r.pending with
  | some (_, none) => true
  | _ => false

/-- Looks at the value that is pending. -/
def settle (r : Reading) : Except UsageFault Reading :=
  match r.pending with
  | none => .ok r
  | some (_, none) => .error .badValue
  | some (none, some s) =>
    if s = "" then .error .badValue else .ok { r with operand := some s, pending := none }
  | some (some o, some s) =>
    if (r.values.lookup o).isSome then .error .repeated
    else if o = .format ∧ OutputFormat.ofName? s = none then .error .badValue
    else .ok { r with values := (o, s) :: r.values, pending := none }

/-- Takes up an option without a value. -/
def flag (r : Reading) (f : Flag) : Except UsageFault Reading := do
  let r ← r.settle
  match f with
  | .verbose => return { r with verbosity := min 255 (r.verbosity + 1) }
  | .noFlatten => if r.noFlatten then throw .repeated else return { r with noFlatten := true }
  | .help => throw .help
  | .version => throw .version

/-- Takes up an option by its long name, with a value behind an equals sign if
there is one. -/
def long (g : Grammar) (r : Reading) (name : String) (value : Option String) :
    Except UsageFault Reading :=
  match g.options.lookup name with
  | some o => do
    let r ← r.settle
    match value with
    | none => return { r with pending := some (some o, none) }
    | some s => settle { r with pending := some (some o, some s) }
  | none =>
    match g.flags.lookup name with
    | none => .error .unknownArgument
    | some f => if value.isSome then .error .unwantedValue else r.flag f

/-- Takes up bundled letters. -/
def letters (g : Grammar) : Reading → List Char → Except UsageFault Reading
  | r, [] => .ok r
  | r, c :: rest =>
    match g.letters.lookup c with
    | none => .error .unknownArgument
    | some f => do letters g (← r.flag f) rest

/-- Takes up an operand. -/
def takeOperand (g : Grammar) (r : Reading) (afterHyphens : Bool) (word : String) :
    Except UsageFault Reading :=
  if r.operands < g.operands then do
    let r ← r.settle
    return { r with operands := r.operands + 1, pending := some (none, some word) }
  else if g.commands.isEmpty then .error .unknownArgument
  else if afterHyphens = true ∧ (g.commands.lookup word).isSome = true then
    .error .unknownArgument
  else .error .unknownCommand

/-- The format asked for. -/
def format (r : Reading) : Option OutputFormat :=
  (r.values.lookup .format).bind OutputFormat.ofName?

end Reading

/-- The shapes of words. -/
inductive Word where
  /-- Two hyphens. -/
  | hyphens
  /-- Two hyphens and a name, with what follows an equals sign. -/
  | long (name : String) (value : Option String)
  /-- One hyphen and letters. -/
  | letters (letters : List Char)
  | plain
  deriving DecidableEq, Repr

/-- The shape of a word. -/
def Word.of (word : String) : Word :=
  match word.toList with
  | '-' :: '-' :: [] => .hyphens
  | '-' :: '-' :: rest =>
    let name := String.ofList (rest.takeWhile (· != '='))
    match rest.dropWhile (· != '=') with
    | _ :: value => .long name (some (String.ofList value))
    | [] => .long name none
  | '-' :: c :: rest => .letters (c :: rest)
  | _ => .plain

/-- The answer to a request for help on a command. -/
def helpOn : List String → UsageFault
  | [] => .help
  | [name] => if (programGrammar.commands.lookup name).isSome then .help else .unknownCommand
  | _ => .unknownCommand

/-- Reads words up to the name of a command, which is given with the words that
follow it. -/
def scan (g : Grammar) : (afterHyphens : Bool) → Reading → List String →
    Except UsageFault (Reading × Option (CommandName × List String))
  | _, r, [] => .ok (r, none)
  | true, r, word :: rest => do scan g true (← r.takeOperand g true word) rest
  | false, r, word :: rest =>
    match (if r.awaits then none else g.commands.lookup word) with
    | some .help => .error (helpOn rest)
    | some name => .ok (r, some (name, rest))
    | none =>
      match Word.of word with
      | .hyphens => scan g true r rest
      | .long name value => do scan g false (← r.long g name value) rest
      | .letters cs => do scan g false (← Reading.letters g r cs) rest
      | .plain =>
        match r.pending with
        | some (o, none) => scan g false { r with pending := some (o, some word) } rest
        | _ => do scan g false (← r.takeOperand g false word) rest

/-- The arguments that say which graph to build. -/
def Reading.graph (r : Reading) : Except UsageFault GraphArguments :=
  match r.operand with
  | none => .error .missingArgument
  | some descriptor =>
    .ok ⟨descriptor, r.values.lookup .message, r.values.lookup .file, r.noFlatten⟩

/-- The command with what was read of its words. -/
def Reading.command (r : Reading) : CommandName → Except UsageFault Command
  | .init => .ok (.init r.operand)
  | .inspect => r.graph.map .inspect
  | .fields => r.graph.map .fields
  | .paths => do
    let graph ← r.graph
    match r.values.lookup .source, r.values.lookup .target with
    | some source, some target => return .paths graph source target
    | _, _ => throw .missingArgument
  | .help => .error .help

end CommandLine

open CommandLine in
/-- Reads a command line.  An option of the program that is given on both sides
of the command's name counts as given after it. -/
def Invocation.ofWords (words : List String) : Except UsageFault Invocation := do
  let (before, found) ← scan programGrammar false {} words
  match found with
  | none =>
    let before ← before.settle
    throw (if before.format.isNone ∧ before.verbosity = 0 then .nothing else .missingCommand)
  | some (name, rest) =>
    let (after, _) ← scan name.grammar false {} rest
    let after ← after.settle
    let command ← after.command name
    let before ← before.settle
    return {
      command
      format := after.format <|> before.format
      verbosity := if after.verbosity = 0 then before.verbosity else after.verbosity }

end SchemaGraph

import SchemaGraph.Text.Hex

/-!
# Blanks, keys and strings of TOML

Each reader takes the characters that are left and gives what it read with the
characters after it, or `none`.  Control characters other than the tab stand
nowhere but at line ends, where a line feed may have one carriage return before
it.  A line end inside a block string is read as a line feed.
-/

namespace SchemaGraph.Toml

/-- Whether a character may stand in a comment, and in a string as itself. -/
def isPlain (c : Char) : Bool := c == '\t' || (32 ≤ c.toNat && c.toNat != 127)

/-- Whether a character may stand in a key without quotes. -/
def isBareKey (c : Char) : Bool :=
  ('a' ≤ c && c ≤ 'z') || ('A' ≤ c && c ≤ 'Z') || ('0' ≤ c && c ≤ '9') || c == '-' || c == '_'

/-- Drops the blanks of a line. -/
def skipBlanks : List Char → List Char
  | ' ' :: rest => skipBlanks rest
  | '\t' :: rest => skipBlanks rest
  | cs => cs

/-- What follows a line end. -/
def afterNewline? : List Char → Option (List Char)
  | '\n' :: rest => some rest
  | '\r' :: '\n' :: rest => some rest
  | _ => none

/-- What follows the rest of a line that holds at most blanks and a comment. -/
def afterLine? (cs : List Char) : Option (List Char) :=
  let rest := match skipBlanks cs with
    | '#' :: rest => rest.dropWhile isPlain
    | rest => rest
  match rest with
  | [] => some []
  | rest => afterNewline? rest

/-- Drops blanks, line ends and comments; starts inside a comment if
`inComment`. -/
def skipGaps : (inComment : Bool) → List Char → List Char
  | _, [] => []
  | _, '\n' :: rest => skipGaps false rest
  | _, '\r' :: '\n' :: rest => skipGaps false rest
  | true, c :: rest => if isPlain c then skipGaps true rest else c :: rest
  | false, c :: rest =>
    if c = ' ' ∨ c = '\t' then skipGaps false rest
    else if c = '#' then skipGaps true rest
    else c :: rest

/-- Drops blanks and line ends. -/
def skipSpace : List Char → List Char
  | '\n' :: rest => skipSpace rest
  | '\r' :: '\n' :: rest => skipSpace rest
  | ' ' :: rest => skipSpace rest
  | '\t' :: rest => skipSpace rest
  | cs => cs

/-- The character of a one-letter escape. -/
def escaped? : Char → Option Char
  | 'b' => some '\x08'
  | 't' => some '\t'
  | 'n' => some '\n'
  | 'f' => some '\x0c'
  | 'r' => some '\r'
  | '"' => some '"'
  | '\\' => some '\\'
  | _ => none

/-- The number of `width` hexadecimal digits. -/
def readHex : (width : Nat) → Nat → List Char → Option (Nat × List Char)
  | 0, n, cs => some (n, cs)
  | width + 1, n, c :: rest =>
    match Text.Hex.value? c with
    | some d => readHex width (16 * n + d) rest
    | none => none
  | _ + 1, _, [] => none

/-- An escape after its backslash. -/
def readEscape : List Char → Option (Char × List Char)
  | [] => none
  | c :: rest =>
    let width := if c = 'u' then 4 else if c = 'U' then 8 else 0
    if width = 0 then (escaped? c).map fun c => (c, rest)
    else
      match readHex width 0 rest with
      | none => none
      | some (n, rest) => if n.isValidChar then some (Char.ofNat n, rest) else none

/-- The rest of a string in double quotes, with what was read so far in
reverse. -/
def readBasic : (steps : Nat) → List Char → List Char → Option (String × List Char)
  | 0, _, _ => none
  | steps + 1, seen, cs =>
    match cs with
    | [] => none
    | '"' :: rest => some (String.ofList seen.reverse, rest)
    | '\\' :: rest =>
      match readEscape rest with
      | none => none
      | some (c, rest) => readBasic steps (c :: seen) rest
    | c :: rest => if isPlain c then readBasic steps (c :: seen) rest else none

/-- The mark around literal strings. -/
def singleQuote : Char := '\x27'

/-- The rest of a string in single quotes. -/
def readLiteral (cs : List Char) : Option (String × List Char) :=
  let inside := fun c => isPlain c && c != singleQuote
  match cs.dropWhile inside with
  | c :: rest =>
    if c = singleQuote then some (String.ofList (cs.takeWhile inside), rest) else none
  | [] => none

/-- The rest of a block string between triple quotes, with what was read so far
in reverse.  Up to two quotes belong to the text, also in front of the closing
three.  In a block with escapes a backslash at the end of a line takes away the
line end and all blanks and line ends after it. -/
def readBlock (quote : Char) (escapes : Bool) :
    (steps : Nat) → List Char → List Char → Option (String × List Char)
  | 0, _, _ => none
  | steps + 1, seen, cs =>
    match cs with
    | [] => none
    | c :: rest =>
      if c = quote then
        let quotes := cs.takeWhile (· == quote)
        let rest := cs.dropWhile (· == quote)
        if quotes.length < 3 then readBlock quote escapes steps (quotes ++ seen) rest
        else if quotes.length ≤ 5 then
          some (String.ofList (quotes.drop 3 ++ seen).reverse, rest)
        else none
      else if escapes = true ∧ c = '\\' then
        match afterNewline? (skipBlanks rest) with
        | some rest => readBlock quote escapes steps seen (skipSpace rest)
        | none =>
          match readEscape rest with
          | none => none
          | some (c, rest) => readBlock quote escapes steps (c :: seen) rest
      else
        match afterNewline? cs with
        | some rest => readBlock quote escapes steps ('\n' :: seen) rest
        | none => if isPlain c then readBlock quote escapes steps (c :: seen) rest else none

/-- A block string after its opening quotes; a line end right there is not
part of it. -/
def readBlockText (quote : Char) (escapes : Bool) (cs : List Char) : Option (String × List Char) :=
  readBlock quote escapes (cs.length + 1) [] ((afterNewline? cs).getD cs)

/-- A string of any of the four forms. -/
def readString : List Char → Option (String × List Char)
  | '"' :: '"' :: '"' :: rest => readBlockText '"' true rest
  | '"' :: rest => readBasic (rest.length + 1) [] rest
  | '\x27' :: '\x27' :: '\x27' :: rest => readBlockText singleQuote false rest
  | '\x27' :: rest => readLiteral rest
  | _ => none

/-- One part of a key: a string on one line, or bare characters. -/
def readKeyPart : List Char → Option (String × List Char)
  | '"' :: rest => readBasic (rest.length + 1) [] rest
  | '\x27' :: rest => readLiteral rest
  | cs =>
    match cs.takeWhile isBareKey with
    | [] => none
    | part => some (String.ofList part, cs.dropWhile isBareKey)

/-- The parts of a key with points between them; blanks around a part do not
count. -/
def readKeyParts : (steps : Nat) → List Char → Option (List String × List Char)
  | 0, _ => none
  | steps + 1, cs =>
    match readKeyPart (skipBlanks cs) with
    | none => none
    | some (part, rest) =>
      match skipBlanks rest with
      | '.' :: rest => (readKeyParts steps rest).map fun (parts, rest) => (part :: parts, rest)
      | rest => some ([part], rest)

/-- The bound on the parts of a key and on the depth of nested values. -/
def depthLimit : Nat := 80

/-- A key as the path to it and its last part. -/
def readKey (cs : List Char) : Option (List String × String × List Char) :=
  match readKeyParts (cs.length + 1) cs with
  | none => none
  | some (parts, rest) =>
    if parts.length < depthLimit then
      parts.getLast?.map fun last => (parts.dropLast, last, rest)
    else none

end SchemaGraph.Toml

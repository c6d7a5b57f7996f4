import SchemaGraph.Json.Basic
import SchemaGraph.Text.Hex

/-!
# Reading JSON

`Json.read?` reads one value and nothing but blanks around it.  Whole numbers
that fit neither 64-bit range, and the negative zero, are read as doubles.

A double is worked out in two roundings: its leading digits, as many as fit 64
bits, become a double, which is then multiplied or divided by the power of ten.
The result is the nearest double when there are at most fifteen digits and the
power is small, and else may be a neighbour of it.

The steps are bounded by the length of the text, which no value outruns.
-/

namespace SchemaGraph.Json

/-- Drops the four JSON blanks. -/
def skipBlanks : List Char → List Char
  | [] => []
  | c :: rest =>
    if c = ' ' ∨ c = '\n' ∨ c = '\r' ∨ c = '\t' then skipBlanks rest else c :: rest

/-- Whether a character is an ASCII digit. -/
def isDigit (c : Char) : Bool := '0' ≤ c && c ≤ '9'

/-- The digits at the front and what follows. -/
def takeDigits : List Char → List Char × List Char
  | [] => ([], [])
  | c :: rest =>
    if isDigit c then ((c :: (takeDigits rest).1), (takeDigits rest).2) else ([], c :: rest)

/-- The number that digits stand for. -/
def digitsValue (ds : List Char) : Nat :=
  ds.foldl (fun n c => 10 * n + (c.toNat - 48)) 0

/-- Four hexadecimal digits. -/
def readUnit : List Char → Option (Nat × List Char)
  | a :: b :: c :: d :: rest => do
    let a ← Text.Hex.value? a
    let b ← Text.Hex.value? b
    let c ← Text.Hex.value? c
    let d ← Text.Hex.value? d
    return (((a * 16 + b) * 16 + c) * 16 + d, rest)
  | _ => none

/-- A `\u` escape after its letter: one unit, or a pair of surrogates. -/
def readEscapedUnit (cs : List Char) : Option (Char × List Char) :=
  match readUnit cs with
  | none => none
  | some (u, rest) =>
    if 0xD800 ≤ u ∧ u < 0xDC00 then
      -- A high surrogate stands for a character only with the low one after it.
      match rest with
      | '\\' :: 'u' :: more =>
        match readUnit more with
        | some (low, rest) =>
          if 0xDC00 ≤ low ∧ low < 0xE000 then
            some (Char.ofNat (0x10000 + (u - 0xD800) * 1024 + (low - 0xDC00)), rest)
          else none
        | none => none
      | _ => none
    else if 0xDC00 ≤ u ∧ u < 0xE000 then none
    else some (Char.ofNat u, rest)

/-- The rest of a string after its opening quote, with what was read so far in
reverse. -/
def readChars : (steps : Nat) → List Char → List Char → Option (String × List Char)
  | 0, _, _ => none
  | steps + 1, seen, cs =>
    match cs with
    | [] => none
    | '"' :: rest => some (String.ofList seen.reverse, rest)
    | '\\' :: '"' :: rest => readChars steps ('"' :: seen) rest
    | '\\' :: '\\' :: rest => readChars steps ('\\' :: seen) rest
    | '\\' :: '/' :: rest => readChars steps ('/' :: seen) rest
    | '\\' :: 'b' :: rest => readChars steps ('\x08' :: seen) rest
    | '\\' :: 'f' :: rest => readChars steps ('\x0c' :: seen) rest
    | '\\' :: 'n' :: rest => readChars steps ('\n' :: seen) rest
    | '\\' :: 'r' :: rest => readChars steps ('\r' :: seen) rest
    | '\\' :: 't' :: rest => readChars steps ('\t' :: seen) rest
    | '\\' :: 'u' :: rest =>
      match readEscapedUnit rest with
      | none => none
      | some (c, rest) => readChars steps (c :: seen) rest
    | c :: rest =>
      if c = '\\' ∨ c.toNat < 32 then none else readChars steps (c :: seen) rest

/-- A positive double times a power of ten; `none` when it is too large.  A
power below those of doubles is divided by in parts, and after three of them
nothing is left. -/
def scale : (parts : Nat) → Binary64 → Int → Option Binary64
  | parts, x, power =>
    if power.natAbs ≤ 308 then
      (Binary64.ofDecimal false 1 power.natAbs).bind fun ten =>
        if power ≥ 0 then x.times ten else x.dividedBy ten
    else if x.mantissa = 0 then some x
    else if power > 0 then none
    else
      match parts with
      | 0 => Binary64.ofInt 0
      | parts + 1 =>
        (Binary64.ofDecimal false 1 308).bind fun ten =>
          (x.dividedBy ten).bind fun x => scale parts x (power + 308)

/-- The leading digits whose value fits 64 bits, after a value that does. -/
def significand : Nat → List Char → Nat × List Char
  | n, [] => (n, [])
  | n, c :: rest =>
    let more := 10 * n + (c.toNat - 48)
    if more < 0x10000000000000000 then significand more rest else (n, c :: rest)

/-- The double of digits and a power of ten. -/
def double (negative : Bool) (digits : List Char) (power : Int) : Option Binary64 :=
  let (n, dropped) := significand 0 digits
  let x := (Binary64.ofInt n).bind fun x => scale 3 x (power + dropped.length)
  if negative then x.map Binary64.negate else x

/-- The value of a number from its parts. -/
def number (negative : Bool) (whole : List Char) (fraction : Option (List Char))
    (exponent : Option Int) : Option Json :=
  match fraction, exponent with
  | none, none =>
    let n := digitsValue whole
    let value : Int := if negative then -(n : Int) else n
    if (negative && n == 0) || value < -0x8000000000000000 || value ≥ 0x10000000000000000 then
      (double negative whole 0).map .float
    else some (.int value)
  | _, _ =>
    let fraction := fraction.getD []
    (double negative (whole ++ fraction) (exponent.getD 0 - fraction.length)).map .float

/-- The exponent of a number, if there is one. -/
def readExponent (cs : List Char) : Option (Option Int × List Char) :=
  match cs with
  | c :: rest =>
    if c = 'e' ∨ c = 'E' then
      let (negative, rest) := match rest with
        | '-' :: rest => (true, rest)
        | '+' :: rest => (false, rest)
        | rest => (false, rest)
      match takeDigits rest with
      | ([], _) => none
      | (ds, rest) =>
        let n : Int := digitsValue ds
        some (some (if negative then -n else n), rest)
    else some (none, cs)
  | [] => some (none, [])

/-- A number. -/
def readNumber (cs : List Char) : Option (Json × List Char) :=
  let (negative, cs) := match cs with
    | '-' :: rest => (true, rest)
    | cs => (false, cs)
  match takeDigits cs with
  | ([], _) => none
  | (whole, rest) =>
    if whole.length > 1 ∧ whole.head? = some '0' then none
    else
      let fraction := match rest with
        | '.' :: rest =>
          match takeDigits rest with
          | ([], _) => none
          | (ds, rest) => some (some ds, rest)
        | rest => some (none, rest)
      match fraction with
      | none => none
      | some (fraction, rest) =>
        match readExponent rest with
        | none => none
        | some (exponent, rest) =>
          (number negative whole fraction exponent).map fun v => (v, rest)

mutual

/-- One value, after the blanks in front of it. -/
def readValue : (steps : Nat) → List Char → Option (Json × List Char)
  | 0, _ => none
  | steps + 1, cs =>
    match skipBlanks cs with
    | 'n' :: 'u' :: 'l' :: 'l' :: rest => some (.null, rest)
    | 't' :: 'r' :: 'u' :: 'e' :: rest => some (.bool true, rest)
    | 'f' :: 'a' :: 'l' :: 's' :: 'e' :: rest => some (.bool false, rest)
    | '"' :: rest => (readChars (rest.length + 1) [] rest).map fun (s, rest) => (.string s, rest)
    | '[' :: rest =>
      match skipBlanks rest with
      | ']' :: rest => some (.array [], rest)
      | rest => (readItems steps rest).map fun (items, rest) => (.array items, rest)
    | '\x7b' :: rest =>
      match skipBlanks rest with
      | '\x7d' :: rest => some (.object [], rest)
      | rest => (readEntries steps rest).map fun (entries, rest) => (.object entries, rest)
    | cs => readNumber cs

/-- The items of an array up to its closing bracket. -/
def readItems : (steps : Nat) → List Char → Option (List Json × List Char)
  | 0, _ => none
  | steps + 1, cs =>
    match readValue steps cs with
    | none => none
    | some (v, rest) =>
      match skipBlanks rest with
      | ',' :: rest => (readItems steps rest).map fun (items, rest) => (v :: items, rest)
      | ']' :: rest => some ([v], rest)
      | _ => none

/-- The entries of an object up to its closing brace. -/
def readEntries : (steps : Nat) → List Char → Option (List (String × Json) × List Char)
  | 0, _ => none
  | steps + 1, cs =>
    match skipBlanks cs with
    | '"' :: rest =>
      match readChars (rest.length + 1) [] rest with
      | none => none
      | some (key, rest) =>
        match skipBlanks rest with
        | ':' :: rest =>
          match readValue steps rest with
          | none => none
          | some (v, rest) =>
            match skipBlanks rest with
            | ',' :: rest =>
              (readEntries steps rest).map fun (entries, rest) => ((key, v) :: entries, rest)
            | '\x7d' :: rest => some ([(key, v)], rest)
            | _ => none
        | _ => none
    | _ => none

end

/-- The value that a text stands for. -/
def read? (s : String) : Option Json :=
  let cs := s.toList
  match readValue (2 * cs.length + 2) cs with
  | some (v, rest) => if skipBlanks rest = [] then some v else none
  | none => none

end SchemaGraph.Json

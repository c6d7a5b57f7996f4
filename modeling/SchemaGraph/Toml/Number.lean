import SchemaGraph.Text.Hex
import SchemaGraph.Toml.Value

/-!
# Numbers, dates and times of TOML

Single underscores may stand between the digits of a number.  A whole number
has 64 bits, and a float is no number that rounds to positive infinity, other
than the infinity written as such.  Of a date or time only its form is checked:
the ranges of its parts and the lengths of the months.
-/

namespace SchemaGraph.Toml

/-- Whether a character is an ASCII digit. -/
def isDigit (c : Char) : Bool := '0' ≤ c && c ≤ '9'

/-- The digits at the front, of which `ok` says what they are, without the
single underscores between them, and what follows. -/
def takeDigits (ok : Char → Bool) : List Char → List Char × List Char
  | [] => ([], [])
  | '_' :: c :: rest =>
    if ok c then
      let (digits, rest) := takeDigits ok rest
      (c :: digits, rest)
    else ([], '_' :: c :: rest)
  | c :: rest =>
    if ok c then
      let (digits, rest) := takeDigits ok rest
      (c :: digits, rest)
    else ([], c :: rest)

/-- At least one digit, the first of which is no underscore. -/
def readDigits (ok : Char → Bool) : List Char → Option (List Char × List Char)
  | [] => none
  | c :: rest => if ok c then some (takeDigits ok (c :: rest)) else none

/-- The number that digits of a base stand for. -/
def digitsValue (base : Nat) (digits : List Char) : Nat :=
  digits.foldl (fun n c => base * n + (Text.Hex.value? c).getD 0) 0

/-- A whole number of a base after its mark. -/
def readBased (base : Nat) (cs : List Char) : Option (Value × List Char) :=
  let ok := fun c => match Text.Hex.value? c with
    | some d => decide (d < base)
    | none => false
  match readDigits ok cs with
  | none => none
  | some (digits, rest) =>
    let n := digitsValue base digits
    if n < 0x8000000000000000 then some (.integer n, rest) else none

/-- The digits before the point.  Nothing follows a leading zero. -/
def readWhole : List Char → Option (List Char × List Char)
  | '0' :: rest => some (['0'], rest)
  | cs => readDigits isDigit cs

/-- The fraction of a number, if a point follows. -/
def readFraction : List Char → Option (Option (List Char) × List Char)
  | '.' :: rest => (readDigits isDigit rest).map fun (digits, rest) => (some digits, rest)
  | cs => some (none, cs)

/-- The sign of a number, if there is one: whether it is negative, and what
follows. -/
def readSign : List Char → Bool × List Char
  | '-' :: rest => (true, rest)
  | '+' :: rest => (false, rest)
  | cs => (false, cs)

/-- The exponent of a number, if a letter for it follows. -/
def readExponent : List Char → Option (Option Int × List Char)
  | [] => some (none, [])
  | c :: rest =>
    if c = 'e' ∨ c = 'E' then
      let (negative, rest) := readSign rest
      (readDigits isDigit rest).map fun (digits, rest) =>
        let n : Int := digitsValue 10 digits
        (some (if negative then -n else n), rest)
    else some (none, c :: rest)

/-- The value of a number from its parts. -/
def number? (negative : Bool) (whole : List Char) (fraction : Option (List Char))
    (exponent : Option Int) : Option Value :=
  match fraction, exponent with
  | none, none =>
    let n : Int := digitsValue 10 whole
    let n := if negative then -n else n
    if -0x8000000000000000 ≤ n ∧ n < 0x8000000000000000 then some (.integer n) else none
  | _, _ =>
    let fraction := fraction.getD []
    let power := exponent.getD 0 - fraction.length
    match Binary64.ofScientific negative (digitsValue 10 (whole ++ fraction)) power with
    | some x => some (.float x)
    | none => if negative then some (.float (Binary64.assemble true 2047 0)) else none

/-- A decimal number after its sign. -/
def readDecimal (negative : Bool) (cs : List Char) : Option (Value × List Char) := do
  let (whole, rest) ← readWhole cs
  let (fraction, rest) ← readFraction rest
  let (exponent, rest) ← readExponent rest
  return (← number? negative whole fraction exponent, rest)

/-- A number. -/
def readNumber (cs : List Char) : Option (Value × List Char) :=
  match cs with
  | '0' :: 'x' :: rest => readBased 16 rest
  | '0' :: 'o' :: rest => readBased 8 rest
  | '0' :: 'b' :: rest => readBased 2 rest
  | cs =>
    let (negative, rest) := readSign cs
    match rest with
    | 'i' :: 'n' :: 'f' :: rest => some (.float (Binary64.assemble negative 2047 0), rest)
    | 'n' :: 'a' :: 'n' :: rest =>
      some (.float (Binary64.assemble negative 2047 (Nat.pow 2 51)), rest)
    | rest => readDecimal negative rest

/-- A number of exactly `width` digits within a range. -/
def readPart (width low high : Nat) (cs : List Char) : Option (Nat × List Char) :=
  let digits := cs.take width
  let n := digitsValue 10 digits
  if digits.length = width ∧ digits.all isDigit = true ∧ low ≤ n ∧ n ≤ high then
    some (n, cs.drop width)
  else none

/-- What follows a character. -/
def after? (c : Char) : List Char → Option (List Char)
  | [] => none
  | d :: rest => if d = c then some rest else none

/-- The number of days of a month. -/
def daysOf (year month : Nat) : Nat :=
  if month = 2 then
    if year % 4 = 0 ∧ (year % 100 ≠ 0 ∨ year % 400 = 0) then 29 else 28
  else if month = 4 ∨ month = 6 ∨ month = 9 ∨ month = 11 then 30
  else 31

/-- What follows a date. -/
def afterDate? (cs : List Char) : Option (List Char) := do
  let (year, rest) ← readPart 4 0 9999 cs
  let (month, rest) ← readPart 2 1 12 (← after? '-' rest)
  let (_, rest) ← readPart 2 1 (daysOf year month) (← after? '-' rest)
  return rest

/-- What follows a fraction of a second, if there is one. -/
def afterFraction? : List Char → Option (List Char)
  | '.' :: c :: rest => if isDigit c then some (rest.dropWhile isDigit) else none
  | '.' :: [] => none
  | cs => some cs

/-- What follows a time of day. -/
def afterTime? (cs : List Char) : Option (List Char) := do
  let (_, rest) ← readPart 2 0 23 cs
  let (_, rest) ← readPart 2 0 59 (← after? ':' rest)
  let (_, rest) ← readPart 2 0 60 (← after? ':' rest)
  afterFraction? rest

/-- What follows an offset from universal time, if there is one. -/
def afterOffset? : List Char → Option (List Char)
  | 'Z' :: rest => some rest
  | 'z' :: rest => some rest
  | c :: rest =>
    if c = '+' ∨ c = '-' then do
      let (_, rest) ← readPart 2 0 23 rest
      let (_, rest) ← readPart 2 0 59 (← after? ':' rest)
      return rest
    else some (c :: rest)
  | [] => some []

/-- What follows a date, a time, or a date and a time with or without an
offset.  A blank after a date belongs to it only if a time follows. -/
def afterMoment? (cs : List Char) : Option (List Char) :=
  match afterDate? cs with
  | none => afterTime? cs
  | some rest =>
    match rest with
    | c :: more =>
      if c = 'T' ∨ c = 't' ∨ c = ' ' then
        match afterTime? more with
        | some rest => afterOffset? rest
        | none => some rest
      else some rest
    | [] => some []

end SchemaGraph.Toml

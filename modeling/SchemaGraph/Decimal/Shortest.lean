import SchemaGraph.Decimal.Binary64

/-!
# The fewest decimal digits that read back

For a positive finite double, `shortest` gives the decimal with the fewest
digits inside the interval of reals that round to it, and among those the
nearest one, a tie going to the even digit.  All arithmetic is on whole
numbers.  `Layout` says where positional notation ends; the text of a number
always shows that it is not a whole number type, by a point or an exponent.
-/

namespace SchemaGraph.Decimal

/-- A positive decimal `digits · 10 ^ exponent`. -/
structure Positive where
  digits : Nat
  exponent : Int
  deriving DecidableEq, Repr

/-- Compares `a · 10 ^ k` and `b · 2 ^ q` as fractions: the pair of whole
numbers whose quotient is `b · 2 ^ q / 10 ^ k`. -/
def ratio (b : Nat) (q k : Int) : Nat × Nat :=
  let num := if q ≥ 0 then b * Nat.pow 2 q.toNat else b
  let den := if q ≥ 0 then 1 else Nat.pow 2 (-q).toNat
  if k ≥ 0 then (num, den * Nat.pow 10 k.toNat) else (num * Nat.pow 10 (-k).toNat, den)

/-- The power of ten of the leading digit of `num / den`, searched downwards
from a power above it. -/
def leading (b : Nat) (q : Int) : (steps : Nat) → Int → Int
  | 0, k => k
  | steps + 1, k =>
    let (num, den) := ratio b q k
    if den ≤ num then k else leading b q steps (k - 1)

/-- The bounds of the reals that round to `mantissa · 2 ^ exponent`, in
quarters of the last place, and whether the bounds themselves do. -/
structure Bounds where
  low : Nat
  value : Nat
  high : Nat
  exponent : Int
  closed : Bool

/-- The bounds of a positive finite double. -/
def bounds (x : Binary64) : Bounds where
  low := if x.fraction = 0 ∧ 1 < x.biased then 4 * x.mantissa - 1 else 4 * x.mantissa - 2
  value := 4 * x.mantissa
  high := 4 * x.mantissa + 2
  exponent := x.exponent - 2
  closed := x.mantissa % 2 = 0

/-- Whether `n · 10 ^ k` lies within the bounds. -/
def Bounds.contains (b : Bounds) (n : Nat) (k : Int) : Bool :=
  let (lowNum, lowDen) := ratio b.low b.exponent k
  let (highNum, highDen) := ratio b.high b.exponent k
  if b.closed then lowNum ≤ n * lowDen && n * highDen ≤ highNum
  else lowNum < n * lowDen && n * highDen < highNum

/-- The better of the two neighbours of the value on the grid of multiples of
`10 ^ k`, if one lies within the bounds. -/
def Bounds.onGrid (b : Bounds) (k : Int) : Option Nat :=
  let (num, den) := ratio b.value b.exponent k
  let down := num / den
  let up := down + 1
  match b.contains down k && down != 0, b.contains up k with
  | false, false => none
  | true, false => some down
  | false, true => some up
  | true, true =>
    let twice := 2 * (num % den)
    if twice < den ∨ (twice = den ∧ down % 2 = 0) then some down else some up

/-- The first grid with a hit, from coarse to fine. -/
def Bounds.search (b : Bounds) : (steps : Nat) → Int → Positive
  | 0, k => ⟨b.value, k⟩
  | steps + 1, k =>
    match b.onGrid k with
    | some n => ⟨n, k⟩
    | none => b.search steps (k - 1)

/-- Moves trailing zeros of the digits into the exponent. -/
def Positive.trimmed : (steps : Nat) → Positive → Positive
  | 0, d => d
  | steps + 1, d =>
    if d.digits % 10 = 0 ∧ d.digits ≠ 0 then
      Positive.trimmed steps ⟨d.digits / 10, d.exponent + 1⟩
    else d

/-- The shortest decimal that reads back as a positive finite double. -/
def shortest (x : Binary64) : Positive :=
  let b := bounds x
  let top := leading b.value b.exponent 700 310
  Positive.trimmed 20 (b.search 20 (top + 1))

/-- Where a number is written in positional notation: the least and the first
excluded power of ten of its leading digit. -/
structure Layout where
  least : Int
  limit : Int

/-- Numbers from `10 ^ -5` up to `10 ^ 16` are written positionally. -/
def Layout.plain : Layout := ⟨-5, 16⟩

/-- The text of a positive decimal. -/
def Positive.text (layout : Layout) (d : Positive) : String :=
  let ds := (toString d.digits).toList
  let e := d.exponent + (ds.length : Int) - 1
  if layout.least ≤ e ∧ e < layout.limit then
    if d.exponent ≥ 0 then
      String.ofList (ds ++ List.replicate d.exponent.toNat '0') ++ ".0"
    else if e ≥ 0 then
      String.ofList (ds.take (e.toNat + 1)) ++ "." ++ String.ofList (ds.drop (e.toNat + 1))
    else
      "0." ++ String.ofList (List.replicate ((-e).toNat - 1) '0' ++ ds)
  else
    let point := match ds with
      | [] => ""
      | [c] => String.ofList [c]
      | c :: rest => String.ofList (c :: '.' :: rest)
    point ++ "e" ++ (if e < 0 then "-" else "+") ++ toString e.natAbs

/-- The text of a finite double. -/
def text (x : Binary64) : String :=
  let sign := if x.isNegative then "-" else ""
  if x.mantissa = 0 then sign ++ "0.0"
  else sign ++ (shortest x).text Layout.plain

end SchemaGraph.Decimal

/-!
# Binary64 numbers by their bits

A double is kept as its 64 bits, so equality is decidable and nothing hangs on
arithmetic of the machine.  A finite one is `± mantissa · 2 ^ exponent` with
whole numbers.  Widening a 32-bit number is exact; `nearest` rounds a positive
rational to the nearest double, ties to the even mantissa.
-/

namespace SchemaGraph

/-- A double-precision number, given by its bits. -/
structure Binary64 where
  bits : UInt64
  deriving DecidableEq, Repr, Inhabited

namespace Binary64

/-- Assembles a number from its sign, biased exponent and fraction. -/
def assemble (negative : Bool) (biased fraction : Nat) : Binary64 :=
  ⟨UInt64.ofNat ((if negative then Nat.pow 2 63 else 0) + biased * Nat.pow 2 52 + fraction)⟩

/-- Whether the sign bit is set. -/
def isNegative (x : Binary64) : Bool := x.bits.toNat ≥ Nat.pow 2 63

/-- The eleven exponent bits. -/
def biased (x : Binary64) : Nat := x.bits.toNat / Nat.pow 2 52 % Nat.pow 2 11

/-- The fifty-two fraction bits. -/
def fraction (x : Binary64) : Nat := x.bits.toNat % Nat.pow 2 52

/-- Whether the number is neither infinite nor a NaN. -/
def isFinite (x : Binary64) : Bool := x.biased != 2047

/-- Whether the bits stand for a NaN. -/
def isNaN (x : Binary64) : Bool := x.biased == 2047 && x.fraction != 0

/-- The whole number before the power of two, for a finite number. -/
def mantissa (x : Binary64) : Nat :=
  if x.biased = 0 then x.fraction else x.fraction + Nat.pow 2 52

/-- The power of two after the mantissa, for a finite number. -/
def exponent (x : Binary64) : Int :=
  if x.biased = 0 then -1074 else (x.biased : Int) - 1075

/-- The value of a 32-bit number as a double.  A NaN stays a NaN with its
fraction, marked quiet. -/
def ofBinary32 (bits : UInt32) : Binary64 :=
  let n := bits.toNat
  let negative := n ≥ Nat.pow 2 31
  let biased := n / Nat.pow 2 23 % Nat.pow 2 8
  let fraction := n % Nat.pow 2 23
  if biased = 255 then
    let quiet := if fraction = 0 then 0 else if fraction < Nat.pow 2 22 then Nat.pow 2 51 else 0
    assemble negative 2047 (fraction * Nat.pow 2 29 + quiet)
  else if biased = 0 then
    if fraction = 0 then assemble negative 0 0
    else
      -- A number below the normal ones of 32 bits is normal in 64, led by its highest bit.
      let top := Nat.log2 fraction
      assemble negative (874 + top) ((fraction - Nat.pow 2 top) * Nat.pow 2 (52 - top))
  else assemble negative (biased + 896) (fraction * Nat.pow 2 29)

/-- The quotient of two numbers, rounded to the nearest, ties to even. -/
def roundDiv (num den : Nat) : Nat :=
  let q := num / den
  let r := num % den
  if 2 * r < den ∨ (2 * r = den ∧ q % 2 = 0) then q else q + 1

/-- The largest `e` in the range with `2 ^ e ≤ num / den`, found from the
lengths of the two numbers. -/
def floorLog2 (num den : Nat) : Int :=
  let guess : Int := (Nat.log2 num : Int) - (Nat.log2 den : Int)
  let reached :=
    if guess ≥ 0 then den * Nat.pow 2 guess.toNat ≤ num
    else den ≤ num * Nat.pow 2 (-guess).toNat
  if reached then guess else guess - 1

/-- The double nearest to a positive rational; `none` when it is too large. -/
def nearest (negative : Bool) (num den : Nat) : Option Binary64 :=
  if num = 0 then some (assemble negative 0 0)
  else
    let e := max (floorLog2 num den - 52) (-1074)
    let m :=
      if e ≥ 0 then roundDiv num (den * Nat.pow 2 e.toNat)
      else roundDiv (num * Nat.pow 2 (-e).toNat) den
    -- Rounding up may carry into the next power of two.
    let (m, e) := if m = Nat.pow 2 53 then (Nat.pow 2 52, e + 1) else (m, e)
    if m < Nat.pow 2 52 then some (assemble negative 0 m)
    else
      let biased := e + 1075
      if biased ≥ 2047 then none else some (assemble negative biased.toNat (m - Nat.pow 2 52))

/-- The double nearest to `± digits · 10 ^ exponent`. -/
def ofDecimal (negative : Bool) (digits : Nat) (exponent : Int) : Option Binary64 :=
  if exponent ≥ 0 then nearest negative (digits * Nat.pow 10 exponent.toNat) 1
  else nearest negative digits (Nat.pow 10 (-exponent).toNat)

/-- The double nearest to `± digits · 10 ^ exponent`, decided by the number of
digits where the exponent is far out of range, so that no power is worked out
that the answer does not hang on. -/
def ofScientific (negative : Bool) (digits : Nat) (exponent : Int) : Option Binary64 :=
  let magnitude := exponent + (Nat.toDigits 10 digits).length
  if digits = 0 ∨ magnitude < -400 then some (assemble negative 0 0)
  else if magnitude > 400 then none
  else ofDecimal negative digits exponent

/-- A finite number without its sign as a fraction. -/
def ratio (x : Binary64) : Nat × Nat :=
  (x.mantissa * Nat.pow 2 x.exponent.toNat, Nat.pow 2 (-x.exponent).toNat)

/-- The double nearest to the product of two positive finite ones. -/
def times (x y : Binary64) : Option Binary64 :=
  nearest false (x.ratio.1 * y.ratio.1) (x.ratio.2 * y.ratio.2)

/-- The double nearest to the quotient of two positive finite ones. -/
def dividedBy (x y : Binary64) : Option Binary64 :=
  nearest false (x.ratio.1 * y.ratio.2) (x.ratio.2 * y.ratio.1)

/-- The number with the other sign. -/
def negate (x : Binary64) : Binary64 := ⟨x.bits ^^^ ((1 : UInt64) <<< 63)⟩

/-- The double nearest to a whole number. -/
def ofInt (n : Int) : Option Binary64 :=
  ofDecimal (decide (n < 0)) n.natAbs 0

end Binary64

end SchemaGraph

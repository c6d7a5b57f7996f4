/-!
# Hexadecimal digits

Bytes as pairs of lowercase digits, and reading them back.  Reading accepts
digits of either case and refuses an odd number of them.
-/

namespace SchemaGraph.Text.Hex

/-- The lowercase digit of a number below sixteen. -/
def digit (n : Nat) : Char :=
  if n < 10 then Char.ofNat (48 + n) else Char.ofNat (87 + n)

/-- The value of a digit of either case. -/
def value? (c : Char) : Option Nat :=
  let n := c.toNat
  if 48 ≤ n ∧ n ≤ 57 then some (n - 48)
  else if 97 ≤ n ∧ n ≤ 102 then some (n - 87)
  else if 65 ≤ n ∧ n ≤ 70 then some (n - 55)
  else none

/-- The two digits of a byte. -/
def ofByte (b : UInt8) : List Char :=
  [digit (b.toNat / 16), digit (b.toNat % 16)]

/-- The digits of a byte string. -/
def encode (bs : List UInt8) : String :=
  String.ofList (bs.flatMap ofByte)

/-- Reads pairs of digits. -/
def decodeChars : List Char → Option (List UInt8)
  | [] => some []
  | [_] => none
  | hi :: lo :: rest => do
    let h ← value? hi
    let l ← value? lo
    let bs ← decodeChars rest
    return UInt8.ofNat (16 * h + l) :: bs

/-- The byte string that a text of digits stands for. -/
def decode? (s : String) : Option (List UInt8) :=
  decodeChars s.toList

/-- The last `width` digits of a number. -/
def ofNat : (width : Nat) → Nat → List Char
  | 0, _ => []
  | width + 1, n => ofNat width (n / 16) ++ [digit (n % 16)]

theorem value_digit (n : Nat) (h : n < 16) : value? (digit n) = some n := by
  have cases : n = 0 ∨ n = 1 ∨ n = 2 ∨ n = 3 ∨ n = 4 ∨ n = 5 ∨ n = 6 ∨ n = 7 ∨ n = 8 ∨
      n = 9 ∨ n = 10 ∨ n = 11 ∨ n = 12 ∨ n = 13 ∨ n = 14 ∨ n = 15 := by omega
  rcases cases with h | h | h | h | h | h | h | h | h | h | h | h | h | h | h | h <;>
    subst h <;> decide

end SchemaGraph.Text.Hex

/-!
# UTF-8

Reading bytes as characters.  `scan` marks every maximal ill-formed part of
the input with `none`: the strict reading refuses a text with such a part,
the lossy one puts the replacement character in its place.

The ill-formed parts are those of the Unicode standard: the longest prefix of
a well-formed sequence, or one byte when there is none.

Characters may also be taken and dropped by the number of their bytes, which
fails where a character would be cut in two.
-/

namespace SchemaGraph.Text.Utf8

/-- The number of bytes after a lead byte, and the range of the first of them. -/
def lead (b : UInt8) : Option (Nat × UInt8 × UInt8) :=
  if b < 0x80 then some (0, 0x80, 0xBF)
  else if b < 0xC2 then none
  else if b < 0xE0 then some (1, 0x80, 0xBF)
  else if b = 0xE0 then some (2, 0xA0, 0xBF)
  else if b = 0xED then some (2, 0x80, 0x9F)
  else if b < 0xF0 then some (2, 0x80, 0xBF)
  else if b = 0xF0 then some (3, 0x90, 0xBF)
  else if b < 0xF4 then some (3, 0x80, 0xBF)
  else if b = 0xF4 then some (3, 0x80, 0x8F)
  else none

/-- The bits of a lead byte that belong to the code point. -/
def leadBits (b : UInt8) : Nat :=
  if b < 0x80 then b.toNat
  else if b < 0xE0 then b.toNat - 0xC0
  else if b < 0xF0 then b.toNat - 0xE0
  else b.toNat - 0xF0

/-- Reads the `owed` bytes that finish a sequence, with the code point so far
and the range of the next byte, and gives the character and what follows. -/
def finish : (owed : Nat) → (code : Nat) → (low high : UInt8) → List UInt8 →
    Option Char × List UInt8
  | 0, code, _, _, bs => (some (Char.ofNat code), bs)
  | _ + 1, _, _, _, [] => (none, [])
  | owed + 1, code, low, high, b :: bs =>
    if low ≤ b && b ≤ high then finish owed (code * 64 + (b.toNat - 0x80)) 0x80 0xBF bs
    else (none, b :: bs)

/-- The first character of a non-empty input, or `none` for an ill-formed part,
and what follows. -/
def next (b : UInt8) (bs : List UInt8) : Option Char × List UInt8 :=
  match lead b with
  | none => (none, bs)
  | some (owed, low, high) => finish owed (leadBits b) low high bs

theorem length_finish_le (owed code : Nat) (low high : UInt8) (bs : List UInt8) :
    (finish owed code low high bs).2.length ≤ bs.length := by
  induction owed generalizing code low high bs with
  | zero => simp [finish]
  | succ owed ih =>
      cases bs with
      | nil => simp [finish]
      | cons b bs =>
          unfold finish
          split
          · exact Nat.le_succ_of_le (ih _ _ _ bs)
          · simp

theorem length_next_le (b : UInt8) (bs : List UInt8) : (next b bs).2.length ≤ bs.length := by
  unfold next
  split
  · simp
  · exact length_finish_le _ _ _ _ bs

/-- The characters of the input, with `none` for each ill-formed part. -/
def scan : List UInt8 → List (Option Char)
  | [] => []
  | b :: bs => (next b bs).1 :: scan (next b bs).2
termination_by bs => bs.length
decreasing_by simpa using Nat.lt_succ_of_le (length_next_le b bs)

/-- The text the bytes encode, if they are well-formed. -/
def decode? (bs : List UInt8) : Option String :=
  ((scan bs).mapM id).map String.ofList

/-- The text of the bytes with U+FFFD for each ill-formed part. -/
def decodeLossy (bs : List UInt8) : String :=
  String.ofList ((scan bs).map fun c => c.getD '\uFFFD')

/-- The bytes of a text. -/
def encode (s : String) : List UInt8 :=
  s.toUTF8.toList

/-- The number of bytes of a list of characters. -/
def size (cs : List Char) : Nat := cs.foldr (fun c n => c.utf8Size + n) 0

/-- The characters behind a number of bytes, unless these end within one. -/
def drop? : Nat → List Char → Option (List Char)
  | 0, cs => some cs
  | _ + 1, [] => none
  | n + 1, c :: rest => if c.utf8Size ≤ n + 1 then drop? (n + 1 - c.utf8Size) rest else none

/-- The characters of a number of bytes, unless these end within one. -/
def take? : Nat → List Char → Option (List Char)
  | 0, _ => some []
  | _ + 1, [] => none
  | n + 1, c :: rest =>
    if c.utf8Size ≤ n + 1 then (take? (n + 1 - c.utf8Size) rest).map (c :: ·) else none

end SchemaGraph.Text.Utf8

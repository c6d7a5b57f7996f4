/-!
# Keys and varints

The primitive readers of the protobuf wire format.  A reader takes the bytes
that remain and gives what it read and the bytes after it; it looks at no byte
beyond what it returns as read, and every success consumes at least one byte.

A varint has at most ten bytes, and the tenth adds one bit.  A key holds a
field number, which is not zero, and one of six wire types.
-/

namespace SchemaGraph.Wire

/-- Bytes still to be read. -/
abbrev Bytes := List UInt8

/-- How a field's payload is written. -/
inductive WireType where
  | varint
  | sixtyFourBit
  | lengthDelimited
  | startGroup
  | endGroup
  | thirtyTwoBit
  deriving DecidableEq, Repr

/-- The name a wire type has in messages. -/
def WireType.name : WireType → String
  | .varint => "Varint"
  | .sixtyFourBit => "SixtyFourBit"
  | .lengthDelimited => "LengthDelimited"
  | .startGroup => "StartGroup"
  | .endGroup => "EndGroup"
  | .thirtyTwoBit => "ThirtyTwoBit"

/-- The wire type of a number below eight, if it has one. -/
def WireType.ofNat? : Nat → Option WireType
  | 0 => some .varint
  | 1 => some .sixtyFourBit
  | 2 => some .lengthDelimited
  | 3 => some .startGroup
  | 4 => some .endGroup
  | 5 => some .thirtyTwoBit
  | _ => none

/-- The number of a wire type. -/
def WireType.toNat : WireType → Nat
  | .varint => 0
  | .sixtyFourBit => 1
  | .lengthDelimited => 2
  | .startGroup => 3
  | .endGroup => 4
  | .thirtyTwoBit => 5

/-- Why bytes are not a message. -/
inductive Fault where
  | varint
  | keyValue (value : Nat)
  | wireTypeValue (value : Nat)
  | fieldZero
  | wireType (got want : WireType)
  | underflow
  | overrun
  | notUtf8
  | depth
  | endGroup
  deriving DecidableEq, Repr

/-- The description of a fault. -/
def Fault.message : Fault → String
  | .varint => "invalid varint"
  | .keyValue n => "invalid key value: " ++ toString n
  | .wireTypeValue n => "invalid wire type value: " ++ toString n
  | .fieldZero => "invalid tag value: 0"
  | .wireType got want =>
    "invalid wire type: " ++ got.name ++ " (expected " ++ want.name ++ ")"
  | .underflow => "buffer underflow"
  | .overrun => "delimited length exceeded"
  | .notUtf8 => "invalid string value: data is not UTF-8 encoded"
  | .depth => "recursion limit reached"
  | .endGroup => "unexpected end group tag"

/-- Reads a varint of at most `left` bytes, the last of which may add one bit
only. -/
def readVarintWithin : (left : Nat) → Bytes → Except Fault (Nat × Bytes)
  | 0, _ => .error .varint
  | _ + 1, [] => .error .varint
  | left + 1, b :: rest =>
    if b < 0x80 then
      if left = 0 ∧ 1 < b then .error .varint else .ok (b.toNat, rest)
    else
      match readVarintWithin left rest with
      | .error f => .error f
      | .ok (n, rest) => .ok (b.toNat - 0x80 + 0x80 * n, rest)

/-- Reads a varint. -/
def readVarint (bs : Bytes) : Except Fault (Nat × Bytes) :=
  readVarintWithin 10 bs

/-- A field number and the way its payload is written. -/
structure Key where
  number : Nat
  type : WireType
  deriving DecidableEq, Repr

/-- The key that a varint stands for. -/
def Key.ofNat (n : Nat) : Except Fault Key :=
  if 0x100000000 ≤ n then .error (.keyValue n)
  else
    match WireType.ofNat? (n % 8) with
    | none => .error (.wireTypeValue (n % 8))
    | some type => if n / 8 = 0 then .error .fieldZero else .ok ⟨n / 8, type⟩

/-- Reads a key. -/
def readKey (bs : Bytes) : Except Fault (Key × Bytes) :=
  match readVarint bs with
  | .error f => .error f
  | .ok (n, rest) =>
    match Key.ofNat n with
    | .error f => .error f
    | .ok key => .ok (key, rest)

/-- The number whose bytes are given lowest first. -/
def littleEndian : Bytes → Nat
  | [] => 0
  | b :: rest => b.toNat + 256 * littleEndian rest

/-- Splits off `n` bytes, if there are as many. -/
def takeExactly (n : Nat) (bs : Bytes) : Except Fault (Bytes × Bytes) :=
  if n ≤ bs.length then .ok (bs.take n, bs.drop n) else .error .underflow

/-- Reads a length and as many bytes. -/
def readDelimited (bs : Bytes) : Except Fault (Bytes × Bytes) :=
  match readVarint bs with
  | .error f => .error f
  | .ok (n, rest) => takeExactly n rest

/-- Repeats a step for as long as more than `limit` bytes remain.  A step that
consumes nothing would end the run; no step below does. -/
def repeatUntil {ε α : Type} (limit : Nat) (step : Bytes → Except ε (α × Bytes)) (bs : Bytes) :
    Except ε (List α × Bytes) :=
  if bs.length ≤ limit then .ok ([], bs)
  else
    match step bs with
    | .error e => .error e
    | .ok (a, rest) =>
      if rest.length < bs.length then
        match repeatUntil limit step rest with
        | .error e => .error e
        | .ok (as, rest) => .ok (a :: as, rest)
      else .ok ([a], rest)
termination_by bs.length

theorem readVarintWithin_length {left : Nat} {bs rest : Bytes} {n : Nat}
    (h : readVarintWithin left bs = .ok (n, rest)) : rest.length < bs.length := by
  induction left generalizing bs rest n with
  | zero => simp [readVarintWithin] at h
  | succ left ih =>
      cases bs with
      | nil => simp [readVarintWithin] at h
      | cons b tail =>
          unfold readVarintWithin at h
          split at h
          · split at h
            · simp at h
            · cases h
              simp
          · cases hrec : readVarintWithin left tail with
            | error f => simp [hrec] at h
            | ok pair =>
                obtain ⟨m, rest'⟩ := pair
                simp [hrec] at h
                obtain ⟨_, rfl⟩ := h
                exact Nat.lt_succ_of_lt (ih hrec)

theorem readVarint_length {bs rest : Bytes} {n : Nat}
    (h : readVarint bs = .ok (n, rest)) : rest.length < bs.length :=
  readVarintWithin_length h

theorem readKey_length {bs rest : Bytes} {key : Key}
    (h : readKey bs = .ok (key, rest)) : rest.length < bs.length := by
  unfold readKey at h
  split at h
  · cases h
  · next n rest' hv =>
    split at h
    · cases h
    · cases h
      exact readVarint_length hv

end SchemaGraph.Wire

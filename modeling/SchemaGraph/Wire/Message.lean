import SchemaGraph.Wire.Basic
import SchemaGraph.Text.Utf8

/-!
# Messages by their grammar

A grammar says which fields a message type has and how each is written.
Reading gives the known fields in wire order, unknown ones are skipped.  How
several fields of one number combine (the last scalar wins, submessages are
collected or merged) is left to who looks at the fields, so that merging two
submessages is appending their fields.

A submessage is read while more bytes remain than will after it: lengths
inside it are only checked against the whole rest of the input, and running
past the end is noticed afterwards.  The depth counter is lowered on entering
a submessage or a skipped group; at zero neither a submessage nor any unknown
field is accepted.
-/

namespace SchemaGraph.Wire

/-- How a known field is written. -/
inductive Slot (τ : Type) where
  | varint
  | varints
  | fixed64
  | text
  | bytes
  | record (type : τ)
  deriving DecidableEq, Repr

/-- The message types `τ` with their names and fields. -/
structure Grammar (τ : Type) where
  name : τ → String
  slot : τ → Nat → Option (String × Slot τ)

/-- A field's payload as read. -/
inductive Value where
  | number (n : Nat)
  | text (s : String)
  | bytes (bs : Bytes)
  | record (fields : List (Nat × Value))
  deriving Inhabited

/-- Numbered payloads in wire order. -/
abbrev Fields := List (Nat × Value)

/-- A fault and the fields it lies in, innermost first. -/
structure DecodeError where
  trail : List (String × String) := []
  fault : Fault
  deriving DecidableEq, Repr

/-- The text of an error: the fields it lies in, then what is wrong. -/
def DecodeError.message (e : DecodeError) : String :=
  "failed to decode Protobuf message: " ++
    String.join (e.trail.map fun (record, field) => record ++ "." ++ field ++ ": ") ++
    e.fault.message

/-- An error seen from the field around it. -/
def DecodeError.within (e : DecodeError) (record field : String) : DecodeError :=
  { e with trail := e.trail ++ [(record, field)] }

/-- Skips the rest of group `number`, with `inner` for the fields in it. -/
def skipGroup (inner : Key → Bytes → Except Fault Bytes) (number : Nat) (bs : Bytes) :
    Except Fault Bytes :=
  match readKey bs with
  | .error f => .error f
  | .ok (key, rest) =>
    if key.type = .endGroup then
      if key.number = number then .ok rest else .error .endGroup
    else
      match inner key rest with
      | .error f => .error f
      | .ok rest =>
        if rest.length < bs.length then skipGroup inner number rest else .ok rest
termination_by bs.length

/-- Skips the payload of an unknown field. -/
def skipUnknown : (depth : Nat) → Key → Bytes → Except Fault Bytes
  | 0, _, _ => .error .depth
  | depth + 1, key, bs =>
    match key.type with
    | .varint =>
      match readVarint bs with
      | .error f => .error f
      | .ok (_, rest) => .ok rest
    | .sixtyFourBit =>
      match takeExactly 8 bs with
      | .error f => .error f
      | .ok (_, rest) => .ok rest
    | .thirtyTwoBit =>
      match takeExactly 4 bs with
      | .error f => .error f
      | .ok (_, rest) => .ok rest
    | .lengthDelimited =>
      match readDelimited bs with
      | .error f => .error f
      | .ok (_, rest) => .ok rest
    | .startGroup => skipGroup (skipUnknown depth) key.number bs
    | .endGroup => .error .endGroup

/-- Reads a length and hands the number of bytes that remain after it to
`body`, which must stop exactly there. -/
def readFramed {ε α : Type} (fault : Fault → ε)
    (body : (limit : Nat) → Bytes → Except ε (α × Bytes)) (bs : Bytes) : Except ε (α × Bytes) :=
  match readVarint bs with
  | .error f => .error (fault f)
  | .ok (n, rest) =>
    if rest.length < n then .error (fault .underflow)
    else
      let limit := rest.length - n
      match body limit rest with
      | .error e => .error e
      | .ok (a, rest) => if rest.length = limit then .ok (a, rest) else .error (fault .overrun)

/-- Reads varints written back to back. -/
def readPacked (bs : Bytes) : Except Fault (List Nat × Bytes) :=
  readFramed id (fun limit rest => repeatUntil limit readVarint rest) bs

/-- Turns a fault into an error that lies in no field yet. -/
def bare {α : Type} : Except Fault α → Except DecodeError α
  | .error f => .error { fault := f }
  | .ok a => .ok a

/-- Checks the wire type of a known field. -/
def expect {α : Type} (want got : WireType) (read : Except Fault α) : Except Fault α :=
  if got = want then read else .error (.wireType got want)

/-- The payloads of a known field, with `enter` for submessages. -/
def readSlot {τ : Type} (enter : τ → Bytes → Except DecodeError (Fields × Bytes))
    (got : WireType) (slot : Slot τ) (bs : Bytes) : Except DecodeError (List Value × Bytes) :=
  match slot with
  | .varint =>
    bare (expect .varint got (readVarint bs)) |>.map fun (n, rest) => ([.number n], rest)
  | .varints =>
    if got = .lengthDelimited then
      bare (readPacked bs) |>.map fun (ns, rest) => (ns.map .number, rest)
    else
      bare (expect .varint got (readVarint bs)) |>.map fun (n, rest) => ([.number n], rest)
  | .fixed64 =>
    bare (expect .sixtyFourBit got (takeExactly 8 bs)) |>.map fun (b, rest) =>
      ([.number (littleEndian b)], rest)
  | .text =>
    match expect .lengthDelimited got (readDelimited bs) with
    | .error f => .error { fault := f }
    | .ok (b, rest) =>
      match Text.Utf8.decode? b with
      | none => .error { fault := .notUtf8 }
      | some s => .ok ([.text s], rest)
  | .bytes =>
    bare (expect .lengthDelimited got (readDelimited bs)) |>.map fun (b, rest) => ([.bytes b], rest)
  | .record type =>
    if got = .lengthDelimited then
      (enter type bs).map fun (fields, rest) => ([.record fields], rest)
    else .error { fault := .wireType got .lengthDelimited }

/-- Reads one field of a message of a type: a key and its payload. -/
def readField {τ : Type} (g : Grammar τ) (type : τ) (depth : Nat)
    (enter : τ → Bytes → Except DecodeError (Fields × Bytes)) (bs : Bytes) :
    Except DecodeError (Fields × Bytes) :=
  match readKey bs with
  | .error f => .error { fault := f }
  | .ok (key, rest) =>
    match g.slot type key.number with
    | some (field, slot) =>
      match readSlot enter key.type slot rest with
      | .error e => .error (e.within (g.name type) field)
      | .ok (values, rest) => .ok (values.map fun v => (key.number, v), rest)
    | none =>
      match skipUnknown depth key rest with
      | .error f => .error { fault := f }
      | .ok rest => .ok ([], rest)

/-- Reads fields of a message of a type until at most `limit` bytes remain. -/
def readFields {τ : Type} (g : Grammar τ) : (depth : Nat) → τ → (limit : Nat) → Bytes →
    Except DecodeError (Fields × Bytes)
  | 0, type, limit, bs =>
    (repeatUntil limit (readField g type 0 fun _ _ => .error { fault := .depth }) bs).map
      fun (fields, rest) => (fields.flatten, rest)
  | depth + 1, type, limit, bs =>
    let enter := fun inner => readFramed (fun f => { fault := f }) (readFields g depth inner)
    (repeatUntil limit (readField g type (depth + 1) enter) bs).map
      fun (fields, rest) => (fields.flatten, rest)

/-- How many messages may lie inside each other. -/
def maxDepth : Nat := 100

/-- The fields of a whole input. -/
def decode {τ : Type} (g : Grammar τ) (type : τ) (bs : Bytes) : Except DecodeError Fields :=
  (readFields g maxDepth type 0 bs).map (·.1)

namespace Fields

/-- The last number under a field number. -/
def number? (n : Nat) : Fields → Option Nat
  | [] => none
  | (m, v) :: rest =>
    match number? n rest with
    | some k => some k
    | none =>
      match v with
      | .number k => if m = n then some k else none
      | _ => none

/-- All numbers under a field number. -/
def numbers (n : Nat) (fields : Fields) : List Nat :=
  fields.filterMap fun
    | (m, .number k) => if m = n then some k else none
    | _ => none

/-- The last text under a field number. -/
def text? (n : Nat) : Fields → Option String
  | [] => none
  | (m, v) :: rest =>
    match text? n rest with
    | some s => some s
    | none =>
      match v with
      | .text s => if m = n then some s else none
      | _ => none

/-- The last byte string under a field number. -/
def bytes? (n : Nat) : Fields → Option Bytes
  | [] => none
  | (m, v) :: rest =>
    match bytes? n rest with
    | some b => some b
    | none =>
      match v with
      | .bytes b => if m = n then some b else none
      | _ => none

/-- All submessages under a field number. -/
def records (n : Nat) (fields : Fields) : List Fields :=
  fields.filterMap fun
    | (m, .record inner) => if m = n then some inner else none
    | _ => none

/-- The submessages under a field number merged into one. -/
def merged (n : Nat) (fields : Fields) : Fields :=
  (records n fields).flatten

end Fields

end SchemaGraph.Wire

import SchemaGraph.Option.Value
import SchemaGraph.Option.Registry
import SchemaGraph.Wire.Message

/-!
# Decoding custom options

The bytes of an options message, read record by record against the extensions
registered for that message type.  Records without a registered extension are
skipped, whole groups included.  A length-delimited record of a number type
holds values written back to back.  Any other record gives one value, and the
way it is written decides how it is read.
-/

namespace SchemaGraph

open Wire (Bytes Key WireType Fault readKey readVarint littleEndian)

/-- Why option bytes cannot be read, apart from malformed keys and varints. -/
inductive OptionFault where
  | truncated (what : String) (need available : Nat)
  | encoding (got : WireType) (type : FieldType)
  | unterminated (group : Nat)
  | closedBy (group other : Nat)
  | unopened (group : Nat)
  deriving DecidableEq, Repr

/-- The description of a fault. -/
def OptionFault.message : OptionFault → String
  | .truncated what need available =>
    "truncated " ++ what ++ " value: need " ++ toString need ++
      " bytes, have " ++ toString available
  | .encoding got type =>
    "unexpected " ++ got.name ++ " encoding for a " ++ type.keyword ++ " value"
  | .unterminated n => "unterminated group " ++ toString n
  | .closedBy n m => "group " ++ toString n ++ " closed by " ++ toString m
  | .unopened n => "unexpected end of group " ++ toString n

/-- Why the options of a declaration cannot be decoded. -/
inductive OptionError where
  | wire (fault : Fault)
  | option (fault : OptionFault)
  deriving DecidableEq, Repr

namespace CustomOption

/-- A reader of option bytes. -/
abbrev Reader (α : Type) := Bytes → Except OptionError (α × Bytes)

/-- A varint. -/
def varint : Reader Nat := fun bs =>
  match readVarint bs with
  | .error f => .error (.wire f)
  | .ok r => .ok r

/-- The next `n` bytes of a value that is called `what`. -/
def exactly (what : String) (n : Nat) : Reader Bytes := fun bs =>
  if n ≤ bs.length then .ok (bs.take n, bs.drop n)
  else .error (.option (.truncated what n bs.length))

/-- A length and as many bytes. -/
def delimited : Reader Bytes := fun bs =>
  match varint bs with
  | .error e => .error e
  | .ok (n, rest) => exactly "length-delimited" n rest

/-- Skips everything up to the end of the innermost of the open groups, and
then of those around it. -/
def skipGroups : List Nat → Bytes → Except OptionError Bytes
  | [], bs => .ok bs
  | group :: outer, bs =>
    -- Bytes that end here leave the innermost group open.
    if bs = [] then .error (.option (.unterminated group))
    else
      match h : readKey bs with
      | .error f => .error (.wire f)
      | .ok (key, rest) =>
        have : rest.length < bs.length := Wire.readKey_length h
        match key.type with
        | .endGroup =>
          if key.number = group then skipGroups outer rest
          else .error (.option (.closedBy group key.number))
        | .startGroup => skipGroups (key.number :: group :: outer) rest
        | .varint =>
          match h : readVarint rest with
          | .error f => .error (.wire f)
          | .ok (_, after) =>
            have : after.length < rest.length := Wire.readVarint_length h
            skipGroups (group :: outer) after
        | .sixtyFourBit =>
          if 8 ≤ rest.length then skipGroups (group :: outer) (rest.drop 8)
          else .error (.option (.truncated "fixed-width" 8 rest.length))
        | .thirtyTwoBit =>
          if 4 ≤ rest.length then skipGroups (group :: outer) (rest.drop 4)
          else .error (.option (.truncated "fixed-width" 4 rest.length))
        | .lengthDelimited =>
          match h : readVarint rest with
          | .error f => .error (.wire f)
          | .ok (n, after) =>
            have : after.length < rest.length := Wire.readVarint_length h
            if n ≤ after.length then skipGroups (group :: outer) (after.drop n)
            else .error (.option (.truncated "length-delimited" n after.length))
termination_by _ bs => bs.length
decreasing_by all_goals grind

/-- Skips the payload of a record after its key. -/
def skipRecord (key : Key) (bs : Bytes) : Except OptionError Bytes :=
  match key.type with
  | .varint => (varint bs).map (·.2)
  | .sixtyFourBit => (exactly "fixed-width" 8 bs).map (·.2)
  | .thirtyTwoBit => (exactly "fixed-width" 4 bs).map (·.2)
  | .lengthDelimited => (delimited bs).map (·.2)
  | .startGroup => skipGroups [key.number] bs
  | .endGroup => .error (.option (.unopened key.number))

/-- The signed number that a zigzag-encoded one stands for. -/
def zigzag (n : Nat) : Int :=
  if n % 2 = 0 then (n / 2 : Nat) else -((n / 2 : Nat) : Int) - 1

/-- The value of a varint. -/
def ofVarint (type : FieldType) (n : Nat) : OptionValue :=
  match type with
  | .bool => .bool (n != 0)
  | .enum => .enum (Int32.ofNat n)
  | .uint32 | .uint64 => .uint (UInt64.ofNat n)
  | .sint32 | .sint64 => .int (Int64.ofInt (zigzag n))
  | .int32 => .int (Int64.ofInt (Int32.ofNat n).toInt)
  | _ => .int (Int64.ofNat n)

/-- The value of four bytes. -/
def ofFixed32 (type : FieldType) (n : Nat) : OptionValue :=
  match type with
  | .float => .float (Binary64.ofBinary32 (UInt32.ofNat n))
  | .sfixed32 => .int (Int64.ofInt (Int32.ofNat n).toInt)
  | _ => .uint (UInt64.ofNat n)

/-- The value of eight bytes. -/
def ofFixed64 (type : FieldType) (n : Nat) : OptionValue :=
  match type with
  | .double => .float ⟨UInt64.ofNat n⟩
  | .sfixed64 => .int (Int64.ofNat n)
  | _ => .uint (UInt64.ofNat n)

/-- One value of a type, written in a given way. -/
def readScalar (got : WireType) (type : FieldType) : Reader OptionValue := fun bs =>
  match got with
  | .varint => (varint bs).map fun (n, rest) => (ofVarint type n, rest)
  | .thirtyTwoBit =>
    (exactly type.keyword 4 bs).map fun (b, rest) => (ofFixed32 type (littleEndian b), rest)
  | .sixtyFourBit =>
    (exactly type.keyword 8 bs).map fun (b, rest) => (ofFixed64 type (littleEndian b), rest)
  | .lengthDelimited => .error (.option (.encoding .lengthDelimited type))
  | .startGroup => .error (.option (.encoding .startGroup type))
  | .endGroup => .error (.option (.encoding .endGroup type))

/-- How the values of a type are written back to back. -/
def packedAs : FieldType → WireType
  | .fixed32 | .sfixed32 | .float => .thirtyTwoBit
  | .fixed64 | .sfixed64 | .double => .sixtyFourBit
  | _ => .varint

/-- All values written back to back in a byte string. -/
def readPacked (type : FieldType) (bs : Bytes) : Except OptionError (List OptionValue) :=
  (Wire.repeatUntil 0 (readScalar (packedAs type) type) bs).map (·.1)

/-- The values of one record of a type, after its key. -/
def readValues (type : FieldType) (key : Key) : Reader (List OptionValue) := fun bs =>
  match key.type with
  | .lengthDelimited =>
    match delimited bs with
    | .error e => .error e
    | .ok (payload, rest) =>
      match type with
      | .string => .ok ([.string (Text.Utf8.decodeLossy payload)], rest)
      | .bytes => .ok ([.bytes payload], rest)
      | .message => .ok ([.message payload], rest)
      -- What is left are numbers, written back to back.
      | _ => (readPacked type payload).map fun values => (values, rest)
  | .startGroup => (skipRecord key bs).map fun rest => ([], rest)
  | got => (readScalar got type bs).map fun (value, rest) => ([value], rest)

/-- The extension that a record of a message type belongs to.  Field numbers
beyond the signed range belong to none. -/
def extensionOf (registry : Registry) (extendee : String) (number : Nat) : Option Extension :=
  if number < 0x80000000 then registry.findByNumber extendee (Int32.ofNat number) else none

/-- One record: the options it sets, which are none if it is skipped. -/
def readRecord (registry : Registry) (extendee : String) : Reader (List CustomOption) := fun bs =>
  match readKey bs with
  | .error f => .error (.wire f)
  | .ok (key, rest) =>
    match extensionOf registry extendee key.number with
    | some e =>
      (readValues e.valueType key rest).map fun (values, rest) =>
        (values.map fun v => ⟨e.fullName, e.number, v⟩, rest)
    | none => (skipRecord key rest).map fun rest => ([], rest)

/-- The custom options that the bytes of an options message set. -/
def decode (registry : Registry) (extendee : String) (bs : Bytes) :
    Except OptionError (List CustomOption) :=
  (Wire.repeatUntil 0 (readRecord registry extendee) bs).map fun (found, _) => found.flatten

end CustomOption

end SchemaGraph

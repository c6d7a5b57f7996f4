import SchemaGraph.Proofs.Decimal.Widening
import SchemaGraph.Proofs.Option.Skip
import SchemaGraph.Proofs.Text.Utf8

/-!
# Reading custom options back

What bytes set which custom options, said from the side of a writer, and the
proof that reading such bytes gives the options again (`decode_of_encodes`).

* `FieldType.Writes` is the number that stands for a value of a type;
* `FieldType.Payload` are the bytes of a value, `FieldType.Packs` those of values
  written back to back;
* `Registry.Encodes` puts records one after the other: a value each, a run of
  values, or a record of a number that belongs to no extension;
* `FieldType.Holds` are the values of a type, and every list of options that hold such
  values is encoded by some bytes (`exists_encodes`).

Varints need not be the shortest ones.  Floats that are not numbers are left out: their
bits may change when they are widened.
-/

namespace SchemaGraph

open FloatFormat (binary32 binary64)
open Wire (Bytes WireType IsVarint IsKey Record littleEndian)

/-- How a single value of a type is written. -/
def FieldType.wireType : FieldType → WireType
  | .bool | .enum | .int32 | .int64 | .uint32 | .uint64 | .sint32 | .sint64 => .varint
  | .fixed32 | .sfixed32 | .float => .thirtyTwoBit
  | .fixed64 | .sfixed64 | .double => .sixtyFourBit
  | .string | .bytes | .message => .lengthDelimited
  | .group => .startGroup

/-- The place of a signed number among 0, -1, 1, -2 and so on. -/
def zigzagged (n : Int) : Nat := if 0 ≤ n then (2 * n).toNat else (-2 * n - 1).toNat

/-- The number that is written for a value of a number type, an enum or a bool.  For a
float it has 32 bits, which stand for what the value stands for. -/
inductive FieldType.Writes : FieldType → OptionValue → Nat → Prop where
  | bool (b : Bool) : Writes .bool (.bool b) b.toNat
  | enum (n : Int32) : Writes .enum (.enum n) n.toInt64.toUInt64.toNat
  | int32 (n : Int32) : Writes .int32 (.int n.toInt64) n.toInt64.toUInt64.toNat
  | int64 (n : Int64) : Writes .int64 (.int n) n.toUInt64.toNat
  | uint32 (n : UInt32) : Writes .uint32 (.uint n.toUInt64) n.toNat
  | uint64 (n : UInt64) : Writes .uint64 (.uint n) n.toNat
  | sint32 (n : Int32) : Writes .sint32 (.int n.toInt64) (zigzagged n.toInt)
  | sint64 (n : Int64) : Writes .sint64 (.int n) (zigzagged n.toInt)
  | fixed32 (n : UInt32) : Writes .fixed32 (.uint n.toUInt64) n.toNat
  | sfixed32 (n : Int32) : Writes .sfixed32 (.int n.toInt64) n.toUInt32.toNat
  | float {x : Binary64} {n : Nat} (hn : n < 2 ^ 32) (hnumber : binary32.value n ≠ .nan)
      (hvalue : binary64.value x.bits.toNat = binary32.value n) : Writes .float (.float x) n
  | fixed64 (n : UInt64) : Writes .fixed64 (.uint n) n.toNat
  | sfixed64 (n : Int64) : Writes .sfixed64 (.int n) n.toUInt64.toNat
  | double (x : Binary64) (hnumber : binary64.value x.bits.toNat ≠ .nan) :
      Writes .double (.float x) x.bits.toNat

variable {type : FieldType} {value : OptionValue} {n : Nat}

theorem zigzag_zigzagged (n : Int) : CustomOption.zigzag (zigzagged n) = n := by
  rw [CustomOption.zigzag, zigzagged]
  split <;> split <;> omega

theorem zigzagged_lt {n : Int} {limit : Nat} (hlow : -limit ≤ n) (hhigh : n < limit) :
    zigzagged n < 2 * limit := by
  rw [zigzagged]
  split <;> omega

/-! ## Numbers read back -/

namespace CustomOption

/-- Bits that stand for a number are read as the double that stands for it. -/
theorem ofBinary32_eq {x : Binary64} (hn : n < 2 ^ 32) (hnumber : binary32.value n ≠ .nan)
    (hvalue : binary64.value x.bits.toNat = binary32.value n) :
    Binary64.ofBinary32 (UInt32.ofNat n) = x := by
  have hwidened := Binary64.value_ofBinary32 (UInt32.ofNat n)
  rw [UInt32.toNat_ofNat_of_lt' hn] at hwidened
  exact Binary64.eq_of_value (hwidened ▸ hnumber) (hwidened.trans hvalue.symm)

theorem int64_ofNat_toNat (n : Int64) : Int64.ofNat n.toUInt64.toNat = n := by
  apply Int64.toBitVec_inj.mp
  simp

theorem int32_ofNat_toNat (n : Int32) : Int32.ofNat n.toUInt32.toNat = n := by
  apply Int32.toBitVec_inj.mp
  simp

/-- The low half of a sign-extended number is the number. -/
theorem int32_ofNat_extended (n : Int32) : Int32.ofNat n.toInt64.toUInt64.toNat = n := by
  rw [← Int64.toInt32_ofNat', int64_ofNat_toNat, Int32.toInt32_toInt64]

/-- The value of a number that is written in the way of its type. -/
def ofNumber (type : FieldType) (n : Nat) : OptionValue :=
  match type.wireType with
  | .varint => ofVarint type n
  | .thirtyTwoBit => ofFixed32 type n
  | _ => ofFixed64 type n

/-- The number that is written for a value stands for it. -/
theorem ofNumber_of_writes (h : type.Writes value n) : ofNumber type n = value := by
  cases h with
  | bool b => cases b <;> rfl
  | enum n => exact congrArg OptionValue.enum (int32_ofNat_extended n)
  | int32 n =>
      show OptionValue.int (Int64.ofInt (Int32.ofNat _).toInt) = _
      rw [int32_ofNat_extended, Int64.ofInt_int32ToInt]
  | int64 n => exact congrArg OptionValue.int (int64_ofNat_toNat n)
  | uint32 n => exact congrArg OptionValue.uint (UInt64.ofNat_uInt32ToNat n)
  | uint64 n => exact congrArg OptionValue.uint UInt64.ofNat_toNat
  | sint32 n =>
      show OptionValue.int (Int64.ofInt (zigzag _)) = _
      rw [zigzag_zigzagged, Int64.ofInt_int32ToInt]
  | sint64 n =>
      show OptionValue.int (Int64.ofInt (zigzag _)) = _
      rw [zigzag_zigzagged, Int64.ofInt_toInt]
  | fixed32 n => exact congrArg OptionValue.uint (UInt64.ofNat_uInt32ToNat n)
  | sfixed32 n =>
      show OptionValue.int (Int64.ofInt (Int32.ofNat _).toInt) = _
      rw [int32_ofNat_toNat, Int64.ofInt_int32ToInt]
  | float hn hnumber hvalue => exact congrArg OptionValue.float (ofBinary32_eq hn hnumber hvalue)
  | fixed64 n => exact congrArg OptionValue.uint UInt64.ofNat_toNat
  | sfixed64 n => exact congrArg OptionValue.int (int64_ofNat_toNat n)
  | double x hnumber =>
      show OptionValue.float ⟨UInt64.ofNat _⟩ = _
      rw [UInt64.ofNat_toNat]

end CustomOption

/-! ## Values and records -/

/-- The bytes after the key of a single value. -/
inductive FieldType.Payload : FieldType → OptionValue → Bytes → Prop where
  | varint {type : FieldType} {value : OptionValue} {n : Nat} {bs : Bytes}
      (hwire : type.wireType = .varint) (hvalue : type.Writes value n) (hbytes : IsVarint n bs) :
      type.Payload value bs
  | thirtyTwoBit {type : FieldType} {value : OptionValue} {n : Nat} {bs : Bytes}
      (hwire : type.wireType = .thirtyTwoBit) (hvalue : type.Writes value n)
      (hlength : bs.length = 4) (hbytes : littleEndian bs = n) : type.Payload value bs
  | sixtyFourBit {type : FieldType} {value : OptionValue} {n : Nat} {bs : Bytes}
      (hwire : type.wireType = .sixtyFourBit) (hvalue : type.Writes value n)
      (hlength : bs.length = 8) (hbytes : littleEndian bs = n) : type.Payload value bs
  | string {length : Bytes} (s : String)
      (hlength : IsVarint (Text.Utf8.encode s).length length) :
      FieldType.string.Payload (.string s) (length ++ Text.Utf8.encode s)
  | bytes {length : Bytes} (bs : Bytes) (hlength : IsVarint bs.length length) :
      FieldType.bytes.Payload (.bytes bs) (length ++ bs)
  | message {length : Bytes} (bs : Bytes) (hlength : IsVarint bs.length length) :
      FieldType.message.Payload (.message bs) (length ++ bs)

theorem FieldType.Payload.ne_nil {payload : Bytes} (h : type.Payload value payload) : payload ≠ [] := by
  cases h with
  | varint hwire hvalue hbytes => exact hbytes.ne_nil
  | thirtyTwoBit hwire hvalue hlength hbytes => rintro rfl; cases hlength
  | sixtyFourBit hwire hvalue hlength hbytes => rintro rfl; cases hlength
  | string s hlength => simp [hlength.ne_nil]
  | bytes bs hlength => simp [hlength.ne_nil]
  | message bs hlength => simp [hlength.ne_nil]

/-- Whether values of a type may be written back to back: numbers, enums and bools. -/
def FieldType.IsPackable (type : FieldType) : Prop :=
  type.wireType ≠ .lengthDelimited ∧ type.wireType ≠ .startGroup

instance (type : FieldType) : Decidable type.IsPackable :=
  inferInstanceAs (Decidable (type.wireType ≠ .lengthDelimited ∧ type.wireType ≠ .startGroup))

/-- Values of a type, written back to back. -/
inductive FieldType.Packs (type : FieldType) : List OptionValue → Bytes → Prop where
  | nil : type.Packs [] []
  | cons {value : OptionValue} {values : List OptionValue} {bs rest : Bytes}
      (hvalue : type.Payload value bs) (hrest : type.Packs values rest) :
      type.Packs (value :: values) (bs ++ rest)

/-- The bytes of an options message that set some options, in order: a record for
each, or one for a run of values of one extension, and between them any records of
numbers that belong to no extension. -/
inductive Registry.Encodes (registry : Registry) (extendee : String) :
    List CustomOption → Bytes → Prop where
  | nil : registry.Encodes extendee [] []
  | single {number : Nat} {e : Extension} {value : OptionValue} {options : List CustomOption}
      {key payload rest : Bytes}
      (hfind : registry.findByNumber extendee (Int32.ofNat number) = some e)
      (hkey : IsKey number e.valueType.wireType key)
      (hpayload : e.valueType.Payload value payload)
      (hrest : registry.Encodes extendee options rest) :
      registry.Encodes extendee (⟨e.fullName, Int32.ofNat number, value⟩ :: options)
        (key ++ (payload ++ rest))
  | packed {number : Nat} {e : Extension} {values : List OptionValue}
      {options : List CustomOption} {key length payload rest : Bytes}
      (hfind : registry.findByNumber extendee (Int32.ofNat number) = some e)
      (htype : e.valueType.IsPackable) (hkey : IsKey number .lengthDelimited key)
      (hlength : IsVarint payload.length length) (hpayload : e.valueType.Packs values payload)
      (hrest : registry.Encodes extendee options rest) :
      registry.Encodes extendee
        (values.map (fun value => ⟨e.fullName, Int32.ofNat number, value⟩) ++ options)
        (key ++ (length ++ (payload ++ rest)))
  | skipped {number : Nat} {options : List CustomOption} {record rest : Bytes}
      (hfind : registry.findByNumber extendee (Int32.ofNat number) = none)
      (hrecord : Record number record) (hrest : registry.Encodes extendee options rest) :
      registry.Encodes extendee options (record ++ rest)

namespace CustomOption

variable {bs payload rest : Bytes} {values : List OptionValue} {number : Nat}

theorem packedAs_eq (h : type.IsPackable) : packedAs type = type.wireType := by
  cases type <;> first | rfl | exact absurd rfl h.1 | exact absurd rfl h.2

/-- A single number is read in the way of its type. -/
theorem readScalar_append (htype : type.IsPackable) (h : type.Payload value payload)
    (rest : Bytes) :
    readScalar type.wireType type (payload ++ rest) = .ok (value, rest) := by
  cases h with
  | varint hwire hvalue hbytes =>
      have hnumber := ofNumber_of_writes hvalue
      rw [ofNumber, hwire] at hnumber
      rw [hwire, readScalar, varint_append hbytes]
      exact congrArg (fun value => Except.ok (value, rest)) hnumber
  | thirtyTwoBit hwire hvalue hlength hbytes =>
      have hnumber := ofNumber_of_writes hvalue
      rw [ofNumber, hwire] at hnumber
      rw [hwire, readScalar, exactly_append _ hlength]
      subst hbytes
      exact congrArg (fun value => Except.ok (value, rest)) hnumber
  | sixtyFourBit hwire hvalue hlength hbytes =>
      have hnumber := ofNumber_of_writes hvalue
      rw [ofNumber, hwire] at hnumber
      rw [hwire, readScalar, exactly_append _ hlength]
      subst hbytes
      exact congrArg (fun value => Except.ok (value, rest)) hnumber
  -- Texts, bytes and messages carry their length and are never packed.
  | string s hlength => exact absurd rfl htype.1
  | bytes bs hlength => exact absurd rfl htype.1
  | message bs hlength => exact absurd rfl htype.1

/-- Values written back to back are read one after the other. -/
theorem readPacked_of_packs (htype : type.IsPackable) (h : type.Packs values payload) :
    readPacked type payload = .ok values := by
  have hrun : Wire.repeatUntil 0 (readScalar type.wireType type) payload = .ok (values, []) := by
    induction h with
    | nil => exact Wire.repeatUntil_nil _
    | cons hvalue hrest ih =>
        rw [Wire.repeatUntil_append hvalue.ne_nil
          (readScalar_append htype hvalue _), ih]
        rfl
  rw [readPacked, packedAs_eq htype, hrun]
  rfl

theorem readValues_of_isPackable (htype : type.IsPackable) (h : type.Payload value payload)
    (number : Nat) (rest : Bytes) :
    readValues type ⟨number, type.wireType⟩ (payload ++ rest) = .ok ([value], rest) := by
  have hread := readScalar_append htype h rest
  obtain ⟨hdelimited, hstart⟩ := htype
  generalize type.wireType = got at hread hdelimited hstart ⊢
  cases got with
  | lengthDelimited => exact absurd rfl hdelimited
  | startGroup => exact absurd rfl hstart
  | varint => dsimp only [readValues]; rw [hread]; rfl
  | sixtyFourBit => dsimp only [readValues]; rw [hread]; rfl
  | thirtyTwoBit => dsimp only [readValues]; rw [hread]; rfl
  | endGroup => dsimp only [readValues]; rw [hread]; rfl

/-- The payload of a single value is read as the value. -/
theorem readValues_single (h : type.Payload value payload) (number : Nat) (rest : Bytes) :
    readValues type ⟨number, type.wireType⟩ (payload ++ rest) = .ok ([value], rest) := by
  have hpackable (htype : type.IsPackable) := readValues_of_isPackable htype h number rest
  rw [FieldType.IsPackable] at hpackable
  cases h with
  | varint hwire hvalue hbytes => exact hpackable (by rw [hwire]; decide)
  | thirtyTwoBit hwire hvalue hlength hbytes =>
      exact hpackable (by rw [hwire]; decide)
  | sixtyFourBit hwire hvalue hlength hbytes =>
      exact hpackable (by rw [hwire]; decide)
  | string s hlength =>
      rw [List.append_assoc]
      dsimp only [readValues, FieldType.wireType]
      rw [delimited_append hlength]
      dsimp only
      rw [Text.Utf8.decodeLossy_encode]
  | bytes bs hlength =>
      rw [List.append_assoc]
      dsimp only [readValues, FieldType.wireType]
      rw [delimited_append hlength]
  | message bs hlength =>
      rw [List.append_assoc]
      dsimp only [readValues, FieldType.wireType]
      rw [delimited_append hlength]

/-- A run of values is read as the values. -/
theorem readValues_packed {length : Bytes} (htype : type.IsPackable)
    (hlength : IsVarint payload.length length) (h : type.Packs values payload) (number : Nat)
    (rest : Bytes) :
    readValues type ⟨number, .lengthDelimited⟩ (length ++ (payload ++ rest)) =
      .ok (values, rest) := by
  have hread := readPacked_of_packs htype h
  dsimp only [readValues]
  rw [delimited_append hlength]
  cases type with
  | string => exact absurd rfl htype.1
  | bytes => exact absurd rfl htype.1
  | message => exact absurd rfl htype.1
  | group => exact absurd rfl htype.2
  | _ =>
    dsimp only
    rw [hread]
    rfl

end CustomOption

/-! ## The extensions of a registry -/

/-- What is found under a key was declared with it. -/
def Registry.IsKeyed (registry : Registry) : Prop :=
  ∀ key e, registry.byNumber.lookup key = some e → e.key = key

theorem Registry.IsKeyed.insert {registry : Registry} (h : registry.IsKeyed) (e : Extension) :
    (registry.insert e).IsKeyed := by
  intro key found hfound
  dsimp only [Registry.insert] at hfound
  rw [lookup_assign] at hfound
  split at hfound
  · next hkey =>
    obtain rfl := Option.some.inj hfound
    exact hkey.symm
  · exact h key found hfound

theorem Registry.isKeyed_ofSet (set : FileSet) : (Registry.ofSet set).IsKeyed := by
  have hfold (extensions : List Extension) (registry : Registry) (h : registry.IsKeyed) :
      (extensions.foldl Registry.insert registry).IsKeyed := by
    induction extensions generalizing registry with
    | nil => exact h
    | cons e rest ih => exact ih _ (h.insert e)
  exact hfold _ {} fun _ _ hfound => by cases hfound

/-! ## Whole messages -/

namespace CustomOption

variable {registry : Registry} {extendee : String} {number : Nat} {e : Extension}
variable {values : List OptionValue} {bs key rest : Bytes} {type : WireType}

theorem extensionOf_of_lt (h : number < 0x20000000) :
    extensionOf registry extendee number = registry.findByNumber extendee (Int32.ofNat number) :=
  if_pos (by omega)

/-- A record of a registered number sets its values under the registered name. -/
theorem readRecord_of_find (hregistry : registry.IsKeyed)
    (hfind : registry.findByNumber extendee (Int32.ofNat number) = some e)
    (hkey : IsKey number type key) (hread : readValues e.valueType ⟨number, type⟩ bs =
      .ok (values, rest)) :
    readRecord registry extendee (key ++ bs) =
      .ok (values.map fun value => ⟨e.fullName, Int32.ofNat number, value⟩, rest) := by
  have hnumber : e.number = Int32.ofNat number := congrArg Prod.snd (hregistry _ e hfind)
  rw [readRecord, Wire.readKey_append hkey]
  dsimp only
  rw [extensionOf_of_lt hkey.range, hfind]
  dsimp only
  rw [hread, ← hnumber]
  rfl

/-- A record of a number without an extension sets nothing. -/
theorem readRecord_of_find_none
    (hfind : registry.findByNumber extendee (Int32.ofNat number) = none)
    (hrecord : Record number bs) (rest : Bytes) :
    readRecord registry extendee (bs ++ rest) = .ok ([], rest) := by
  obtain ⟨key, after, hread, hnumber, hskip⟩ := exists_skipRecord hrecord rest
  rw [readRecord, hread]
  dsimp only
  rw [hnumber, extensionOf_of_lt hrecord.number_lt, hfind]
  dsimp only
  rw [hskip]
  rfl

/-- Reading the bytes of some options gives the options. -/
theorem decode_eq_of_encodes {set : FileSet} {options : List CustomOption}
    (h : (Registry.ofSet set).Encodes extendee options bs) :
    decode (Registry.ofSet set) extendee bs = .ok options := by
  have hregistry := Registry.isKeyed_ofSet set
  suffices hrun : ∃ found, Wire.repeatUntil 0 (readRecord (Registry.ofSet set) extendee) bs =
      .ok (found, []) ∧ found.flatten = options by
    obtain ⟨found, hfound, rfl⟩ := hrun
    rw [decode, hfound]
    rfl
  -- Each record is the first of a run over it and what follows.
  have hstep {record rest : Bytes} {some more : List CustomOption} (hne : record ≠ [])
      (hread : readRecord (Registry.ofSet set) extendee (record ++ rest) = .ok (some, rest))
      (hrest : ∃ found, Wire.repeatUntil 0 (readRecord (Registry.ofSet set) extendee) rest =
        .ok (found, []) ∧ found.flatten = more) :
      ∃ found, Wire.repeatUntil 0 (readRecord (Registry.ofSet set) extendee) (record ++ rest) =
        .ok (found, []) ∧ found.flatten = some ++ more := by
    obtain ⟨found, hfound, rfl⟩ := hrest
    refine ⟨some :: found, ?_, rfl⟩
    rw [Wire.repeatUntil_append hne hread, hfound]
    rfl
  induction h with
  | nil => exact ⟨[], Wire.repeatUntil_nil _, rfl⟩
  | @single number e value options key payload rest hfind hkey hpayload hrest ih =>
      have hread := readRecord_of_find hregistry hfind hkey
        (readValues_single hpayload number rest)
      rw [← List.append_assoc] at hread ⊢
      exact hstep (by simp [hkey.spelled.ne_nil]) hread ih
  | @packed number e values options key length payload rest hfind htype hkey hlength hpayload
      hrest ih =>
      have hread := readRecord_of_find hregistry hfind hkey
        (readValues_packed htype hlength hpayload number rest)
      rw [← List.append_assoc length, ← List.append_assoc] at hread ⊢
      exact hstep (by simp [hkey.spelled.ne_nil]) hread ih
  | skipped hfind hrecord hrest ih =>
      exact hstep hrecord.ne_nil (readRecord_of_find_none hfind hrecord _) ih

end CustomOption

/-! ## Every value can be written -/

/-- The values of a type: its whole range, but for floats that are not numbers. -/
def FieldType.Holds : FieldType → OptionValue → Prop
  | .bool, .bool _ => True
  | .enum, .enum _ => True
  | .int32, .int n | .sint32, .int n | .sfixed32, .int n =>
    -0x80000000 ≤ n.toInt ∧ n.toInt < 0x80000000
  | .int64, .int _ | .sint64, .int _ | .sfixed64, .int _ => True
  | .uint32, .uint n | .fixed32, .uint n => n.toNat < 0x100000000
  | .uint64, .uint _ | .fixed64, .uint _ => True
  | .float, .float x => ∃ n < 2 ^ 32, binary32.value n ≠ .nan ∧
    binary64.value x.bits.toNat = binary32.value n
  | .double, .float x => binary64.value x.bits.toNat ≠ .nan
  | .string, .string s => (Text.Utf8.encode s).length < 0x10000000000000000
  | .bytes, .bytes bs | .message, .message bs => bs.length < 0x10000000000000000
  | _, _ => False

section Existence

variable {type : FieldType} {value : OptionValue} {n : Nat}

theorem exists_int32 {n : Int64} (h : -0x80000000 ≤ n.toInt ∧ n.toInt < 0x80000000) :
    ∃ m : Int32, m.toInt64 = n := by
  refine ⟨n.toInt32, Int64.toInt_inj.mp ?_⟩
  rw [Int32.toInt_toInt64, Int64.toInt_toInt32, Int.bmod_eq_of_le] <;> omega

theorem exists_uint32 {n : UInt64} (h : n.toNat < 0x100000000) : ∃ m : UInt32, m.toUInt64 = n := by
  refine ⟨n.toUInt32, UInt64.toNat_inj.mp ?_⟩
  rw [UInt32.toNat_toUInt64, UInt64.toNat_toUInt32, Nat.mod_eq_of_lt h]

theorem exists_varint (hwire : type.wireType = .varint) (h : type.Writes value n)
    (hn : n < 0x10000000000000000) : ∃ payload, type.Payload value payload :=
  ⟨_, .varint hwire h (Wire.isVarint_writeVarint hn)⟩

theorem exists_thirtyTwoBit (hwire : type.wireType = .thirtyTwoBit) (h : type.Writes value n)
    (hn : n < 0x100000000) : ∃ payload, type.Payload value payload :=
  ⟨_, .thirtyTwoBit hwire h (Wire.length_writeFixed 4 n) (Wire.littleEndian_writeFixed hn)⟩

theorem exists_sixtyFourBit (hwire : type.wireType = .sixtyFourBit) (h : type.Writes value n)
    (hn : n < 0x10000000000000000) : ∃ payload, type.Payload value payload :=
  ⟨_, .sixtyFourBit hwire h (Wire.length_writeFixed 8 n) (Wire.littleEndian_writeFixed hn)⟩

/-- Every value of a type can be written. -/
theorem exists_payload (h : type.Holds value) : ∃ payload, type.Payload value payload := by
  unfold FieldType.Holds at h
  split at h
  · next b => exact exists_varint rfl (.bool b) (by cases b <;> decide)
  · next n => exact exists_varint rfl (.enum n) (UInt64.toNat_lt _)
  · next n =>
    obtain ⟨n, rfl⟩ := exists_int32 h
    exact exists_varint rfl (.int32 n) (UInt64.toNat_lt _)
  · next n =>
    obtain ⟨n, rfl⟩ := exists_int32 h
    have hzigzag : zigzagged n.toInt < 2 * 0x80000000 := zigzagged_lt n.le_toInt n.toInt_lt
    exact exists_varint rfl (.sint32 n) (by omega)
  · next n =>
    obtain ⟨n, rfl⟩ := exists_int32 h
    exact exists_thirtyTwoBit rfl (.sfixed32 n) (UInt32.toNat_lt _)
  · next n => exact exists_varint rfl (.int64 n) (UInt64.toNat_lt _)
  · next n =>
    have hzigzag : zigzagged n.toInt < 2 * 0x8000000000000000 :=
      zigzagged_lt n.le_toInt n.toInt_lt
    exact exists_varint rfl (.sint64 n) hzigzag
  · next n => exact exists_sixtyFourBit rfl (.sfixed64 n) (UInt64.toNat_lt _)
  · next n =>
    obtain ⟨n, rfl⟩ := exists_uint32 h
    exact exists_varint rfl (.uint32 n) (by have := n.toNat_lt; omega)
  · next n =>
    obtain ⟨n, rfl⟩ := exists_uint32 h
    exact exists_thirtyTwoBit rfl (.fixed32 n) n.toNat_lt
  · next n => exact exists_varint rfl (.uint64 n) n.toNat_lt
  · next n => exact exists_sixtyFourBit rfl (.fixed64 n) n.toNat_lt
  · obtain ⟨n, hn, hnumber, hvalue⟩ := h
    exact exists_thirtyTwoBit rfl (.float hn hnumber hvalue) hn
  · next x => exact exists_sixtyFourBit rfl (.double x h) x.bits.toNat_lt
  · next s => exact ⟨_, .string s (Wire.isVarint_writeVarint h)⟩
  · next bs => exact ⟨_, .bytes bs (Wire.isVarint_writeVarint h)⟩
  · next bs => exact ⟨_, .message bs (Wire.isVarint_writeVarint h)⟩
  · cases h

/-- An option under a registered number and name, with a value of the registered type. -/
def Registry.Allows (registry : Registry) (extendee : String) (o : CustomOption) : Prop :=
  ∃ number e, 1 ≤ number ∧ number < 0x20000000 ∧
    registry.findByNumber extendee (Int32.ofNat number) = some e ∧
    o.number = Int32.ofNat number ∧ o.name = e.fullName ∧ e.valueType.Holds o.value

/-- Options that a registry allows can be written. -/
theorem exists_encodes {registry : Registry} {extendee : String} {options : List CustomOption}
    (h : ∀ o ∈ options, registry.Allows extendee o) :
    ∃ bs, registry.Encodes extendee options bs := by
  induction options with
  | nil => exact ⟨[], .nil⟩
  | cons o rest ih =>
      obtain ⟨bs, hrest⟩ := ih fun o ho => h o (List.mem_cons_of_mem _ ho)
      obtain ⟨number, e, hpositive, hrange, hfind, hnumber, hname, hvalue⟩ :=
        h o List.mem_cons_self
      obtain ⟨key, hkey⟩ := Wire.exists_isKey hpositive hrange e.valueType.wireType
      obtain ⟨payload, hpayload⟩ := exists_payload hvalue
      obtain ⟨name, _, value⟩ := o
      obtain rfl : name = e.fullName := hname
      obtain rfl := hnumber
      exact ⟨_, .single hfind hkey hpayload hrest⟩

end Existence

namespace CustomOption

/-- Options that a registry allows can be written, in each way with the same result: reading
the bytes gives the options again. -/
theorem decode_of_encodes (set : FileSet) (extendee : String) (options : List CustomOption) :
    (∀ bs, (Registry.ofSet set).Encodes extendee options bs →
      decode (Registry.ofSet set) extendee bs = .ok options) ∧
    ((∀ o ∈ options, (Registry.ofSet set).Allows extendee o) →
      ∃ bs, (Registry.ofSet set).Encodes extendee options bs) :=
  ⟨fun _ hencodes => decode_eq_of_encodes hencodes, exists_encodes⟩

/-- An options message and four extensions of it. -/
def metaSet : FileSet where
  files :=
    [{ name := "acme/meta.proto"
       package := "acme.meta"
       extensions :=
         [{ name := "level", number := 50001, type := .sint32
            extendee := ".google.protobuf.FieldOptions" },
          { name := "tag", number := 50002, type := .string
            extendee := ".google.protobuf.FieldOptions" },
          { name := "weights", number := 50003, label := .repeated, type := .fixed32
            extendee := ".google.protobuf.FieldOptions" },
          { name := "ratio", number := 50004, type := .float
            extendee := ".google.protobuf.FieldOptions" }] }]

/-- Options of all four extensions. -/
def metaOptions : List CustomOption :=
  [⟨"acme.meta.level", 50001, .int (-3)⟩, ⟨"acme.meta.weights", 50003, .uint 1⟩,
    ⟨"acme.meta.weights", 50003, .uint 2⟩, ⟨"acme.meta.tag", 50002, .string "ok"⟩,
    ⟨"acme.meta.ratio", 50004, .float ⟨0x3FF8000000000000⟩⟩]

theorem find_level : (Registry.ofSet metaSet).findByNumber "google.protobuf.FieldOptions"
    (Int32.ofNat 50001) = some ⟨"acme.meta.level", "google.protobuf.FieldOptions", 50001,
      "sint32", .sint32, "acme/meta.proto"⟩ := rfl

theorem find_tag : (Registry.ofSet metaSet).findByNumber "google.protobuf.FieldOptions"
    (Int32.ofNat 50002) = some ⟨"acme.meta.tag", "google.protobuf.FieldOptions", 50002,
      "string", .string, "acme/meta.proto"⟩ := rfl

theorem find_weights : (Registry.ofSet metaSet).findByNumber "google.protobuf.FieldOptions"
    (Int32.ofNat 50003) = some ⟨"acme.meta.weights", "google.protobuf.FieldOptions", 50003,
      "fixed32", .fixed32, "acme/meta.proto"⟩ := rfl

theorem find_ratio : (Registry.ofSet metaSet).findByNumber "google.protobuf.FieldOptions"
    (Int32.ofNat 50004) = some ⟨"acme.meta.ratio", "google.protobuf.FieldOptions", 50004,
      "float", .float, "acme/meta.proto"⟩ := rfl

theorem encode_ok : Text.Utf8.encode "ok" = [111, 107] := by
  rw [Text.Utf8.encode_eq_flatMap]
  decide

/-- A negative level, a group that is skipped, two weights in one record, a tag, and a
ratio of one and a half. -/
def groupedBytes : Bytes :=
  [0x88, 0xB5, 0x18, 0x05, 0x3B, 0x08, 0x96, 0x01, 0x3C, 0x9A, 0xB5, 0x18, 0x08, 1, 0, 0, 0,
    2, 0, 0, 0, 0x92, 0xB5, 0x18, 0x02, 111, 107, 0xA5, 0xB5, 0x18, 0, 0, 0xC0, 0x3F]

theorem encodes_groupedBytes :
    (Registry.ofSet metaSet).Encodes "google.protobuf.FieldOptions" metaOptions groupedBytes := by
  have hlevel : IsKey 50001 .varint [0x88, 0xB5, 0x18] := ⟨by decide, by decide,
    ⟨[0x88, 0xB5], 0x18, rfl, by simp, by decide⟩, by decide, by decide, by decide⟩
  have hthree : FieldType.sint32.Payload (.int (-3)) [0x05] := .varint rfl (.sint32 (-3))
    ⟨⟨[], 0x05, rfl, by simp, by decide⟩, by decide, by decide, by decide⟩
  have hopen : IsKey 7 .startGroup [0x3B] := ⟨by decide, by decide,
    ⟨[], 0x3B, rfl, by simp, by decide⟩, by decide, by decide, by decide⟩
  have hinside : Wire.Record 1 ([0x08] ++ [0x96, 0x01]) := .varint
    ⟨by decide, by decide, ⟨[], 0x08, rfl, by simp, by decide⟩, by decide, by decide, by decide⟩
    ⟨⟨[0x96], 0x01, rfl, by simp, by decide⟩, by decide, rfl, by decide⟩
  have hclose : IsKey 7 .endGroup [0x3C] := ⟨by decide, by decide,
    ⟨[], 0x3C, rfl, by simp, by decide⟩, by decide, by decide, by decide⟩
  have hfindNone : (Registry.ofSet metaSet).findByNumber "google.protobuf.FieldOptions"
      (Int32.ofNat 7) = none := rfl
  have hweights : IsKey 50003 .lengthDelimited [0x9A, 0xB5, 0x18] := ⟨by decide, by decide,
    ⟨[0x9A, 0xB5], 0x18, rfl, by simp, by decide⟩, by decide, by decide, by decide⟩
  have hone : FieldType.fixed32.Payload (.uint 1) [1, 0, 0, 0] :=
    .thirtyTwoBit rfl (.fixed32 1) rfl rfl
  have htwo : FieldType.fixed32.Payload (.uint 2) [2, 0, 0, 0] :=
    .thirtyTwoBit rfl (.fixed32 2) rfl rfl
  have hboth : FieldType.fixed32.Packs [.uint 1, .uint 2] [1, 0, 0, 0, 2, 0, 0, 0] :=
    .cons hone (.cons htwo .nil)
  have height : IsVarint ([1, 0, 0, 0, 2, 0, 0, 0] : Bytes).length [0x08] :=
    ⟨⟨[], 0x08, rfl, by simp, by decide⟩, by decide, by decide, by decide⟩
  have htag : IsKey 50002 .lengthDelimited [0x92, 0xB5, 0x18] := ⟨by decide, by decide,
    ⟨[0x92, 0xB5], 0x18, rfl, by simp, by decide⟩, by decide, by decide, by decide⟩
  have hok : FieldType.string.Payload (.string "ok") ([0x02] ++ [111, 107]) := by
    rw [← encode_ok]
    exact .string "ok" ⟨⟨[], 0x02, rfl, by simp, by decide⟩, by decide, by rw [encode_ok]; rfl,
      by rw [encode_ok]; decide⟩
  have hratio : IsKey 50004 .thirtyTwoBit [0xA5, 0xB5, 0x18] := ⟨by decide, by decide,
    ⟨[0xA5, 0xB5], 0x18, rfl, by simp, by decide⟩, by decide, by decide, by decide⟩
  have hhalves : FieldType.float.Writes (.float ⟨0x3FF8000000000000⟩) 0x3FC00000 :=
    .float (by decide) (by decide +kernel) (by decide +kernel)
  have hfloat : FieldType.float.Payload (.float ⟨0x3FF8000000000000⟩) [0, 0, 0xC0, 0x3F] :=
    .thirtyTwoBit rfl hhalves rfl rfl
  have hpacked := Registry.Encodes.packed find_weights (by decide) hweights height hboth
    (.single find_tag htag hok (.single find_ratio hratio hfloat .nil))
  exact .single find_level hlevel hthree
    (.skipped hfindNone (.group hopen (.cons hinside .nil) hclose) hpacked)

theorem allows_metaOptions :
    ∀ o ∈ metaOptions, (Registry.ofSet metaSet).Allows "google.protobuf.FieldOptions" o := by
  have hlevel : FieldType.sint32.Holds (.int (-3)) := ⟨by decide, by decide⟩
  have hone : (1 : UInt64).toNat < 0x100000000 := by decide
  have htwo : (2 : UInt64).toNat < 0x100000000 := by decide
  have htag : (Text.Utf8.encode "ok").length < 0x10000000000000000 := by
    rw [encode_ok]
    decide
  have hratio : FieldType.float.Holds (.float ⟨0x3FF8000000000000⟩) :=
    ⟨0x3FC00000, by decide, by decide +kernel, by decide +kernel⟩
  rw [metaOptions]
  simp only [List.forall_mem_cons]
  exact ⟨⟨50001, _, by decide, by decide, find_level, rfl, rfl, hlevel⟩,
    ⟨50003, _, by decide, by decide, find_weights, rfl, rfl, hone⟩,
    ⟨50003, _, by decide, by decide, find_weights, rfl, rfl, htwo⟩,
    ⟨50002, _, by decide, by decide, find_tag, rfl, rfl, htag⟩,
    ⟨50004, _, by decide, by decide, find_ratio, rfl, rfl, hratio⟩, by simp⟩

/-- All five options can be written and read, and the ratio is one and a half. -/
theorem decode_of_encodes_metaSet :
    (Registry.ofSet metaSet).Encodes "google.protobuf.FieldOptions" metaOptions groupedBytes ∧
      decode (Registry.ofSet metaSet) "google.protobuf.FieldOptions" groupedBytes =
        .ok metaOptions ∧
      binary64.value 0x3FF8000000000000 = .finite false (3 / 2) ∧
      (∀ o ∈ metaOptions, (Registry.ofSet metaSet).Allows "google.protobuf.FieldOptions" o) ∧
      ∃ bs, (Registry.ofSet metaSet).Encodes "google.protobuf.FieldOptions" metaOptions bs := by
  obtain ⟨hdecode, hexists⟩ := decode_of_encodes metaSet "google.protobuf.FieldOptions" metaOptions
  exact ⟨encodes_groupedBytes, hdecode groupedBytes encodes_groupedBytes, by decide +kernel,
    allows_metaOptions, hexists allows_metaOptions⟩

end CustomOption

end SchemaGraph

import SchemaGraph.Proofs.Option.Encodes

/-!
# Values of the declared types

Which values a declared type has (`FieldType.Admits`), and when reading the bytes
of an options message gives only such values.

The way a record is written decides how it is read, so a record that is written
in the way of another type may give a value of another type, and a varint of a
32-bit type may be too large for it (`decode_mistypes`).  `WrittenAsDeclared`
leaves out just these records; every single record that it allows gives values of
the declared type (`readValues_admits`), and so does a run over any number of them
(`decode_admits`).
-/

namespace SchemaGraph

open Wire (Bytes Key WireType readKey littleEndian)

/-- The values of a type; those of a group are never read. -/
def FieldType.Admits : FieldType → OptionValue → Prop
  | .bool, .bool _ => True
  | .enum, .enum _ => True
  | .string, .string _ => True
  | .bytes, .bytes _ => True
  | .message, .message _ => True
  | .float, .float _ | .double, .float _ => True
  | .int32, .int n | .sint32, .int n | .sfixed32, .int n =>
    -0x80000000 ≤ n.toInt ∧ n.toInt < 0x80000000
  | .int64, .int _ | .sint64, .int _ | .sfixed64, .int _ => True
  | .uint32, .uint n | .fixed32, .uint n => n.toNat < 0x100000000
  | .uint64, .uint _ | .fixed64, .uint _ => True
  | _, _ => False

/-- Whether a record that is written in some way may hold values of a type: one
value, or numbers written back to back. -/
def FieldType.Fits (type : FieldType) (got : WireType) : Prop :=
  got = type.wireType ∨ (got = .lengthDelimited ∧ type.IsPackable)

instance (type : FieldType) (got : WireType) : Decidable (type.Fits got) :=
  inferInstanceAs (Decidable (got = type.wireType ∨ (got = .lengthDelimited ∧ type.IsPackable)))

/-- The types whose varints are not cut off at 32 bits, though their values have no
more. -/
def FieldType.IsNarrow (type : FieldType) : Prop := type = .uint32 ∨ type = .sint32

namespace Wire

variable {ε α β : Type} {limit : Nat} {bs rest : Bytes}

theorem littleEndian_lt (bs : Bytes) : littleEndian bs < 256 ^ bs.length := by
  induction bs with
  | nil => exact Nat.zero_lt_one
  | cons b rest ih =>
      have hb := UInt8.toNat_lt b
      rw [littleEndian, List.length_cons, Nat.pow_succ]
      omega

/-- What every step gives, as long as it leaves bytes that allow the next one, is
what the whole run gives. -/
theorem forall_of_repeatUntil {P : Bytes → Prop} {Q : α → Prop}
    {step : Bytes → Except ε (α × Bytes)}
    (hstep : ∀ bs a rest, P bs → step bs = .ok (a, rest) → Q a ∧ P rest) (hbytes : P bs)
    {as : List α} (h : repeatUntil limit step bs = .ok (as, rest)) : ∀ a ∈ as, Q a := by
  induction bs using WellFounded.induction (measure List.length).wf generalizing as rest with
  | _ bs ih =>
    rw [repeatUntil] at h
    split at h
    · cases h
      simp
    · split at h
      · cases h
      · next a mid hread =>
        obtain ⟨ha, hmid⟩ := hstep bs a mid hbytes hread
        split at h
        · next hshorter =>
          split at h
          · cases h
          · next more last hmore =>
            cases h
            intro b hb
            rcases List.mem_cons.mp hb with rfl | hb
            · exact ha
            · exact ih mid hshorter hmid hmore b hb
        · cases h
          intro b hb
          rw [List.mem_singleton.mp hb]
          exact ha

/-- A run of a step whose results are changed gives the changed results. -/
theorem repeatUntil_map (f : α → β) (step : Bytes → Except ε (α × Bytes)) (bs : Bytes) :
    repeatUntil limit (fun bs => (step bs).map fun found => (f found.1, found.2)) bs =
      (repeatUntil limit step bs).map fun found => (found.1.map f, found.2) := by
  induction bs using WellFounded.induction (measure List.length).wf with
  | _ bs ih =>
    rw [repeatUntil, repeatUntil]
    split
    · rfl
    · cases hread : step bs with
      | error e => rfl
      | ok found =>
          obtain ⟨a, mid⟩ := found
          dsimp only [Except.map]
          have hrest := ih mid
          dsimp only [Except.map] at hrest ⊢
          split
          · next hshorter =>
            rw [hrest hshorter]
            cases repeatUntil limit step mid <;> rfl
          · rfl

end Wire

namespace CustomOption

variable {registry : Registry} {extendee : String} {type : FieldType} {value : OptionValue}
variable {n number : Nat} {bs payload rest : Bytes} {values : List OptionValue} {key : Key}

/-! ## Single values -/

theorem toInt_int32 (n : Int32) :
    -0x80000000 ≤ (Int64.ofInt n.toInt).toInt ∧ (Int64.ofInt n.toInt).toInt < 0x80000000 := by
  rw [Int64.ofInt_int32ToInt, Int32.toInt_toInt64]
  exact ⟨n.le_toInt, n.toInt_lt⟩

theorem zigzag_range (h : n < 0x100000000) : -0x80000000 ≤ zigzag n ∧ zigzag n < 0x80000000 := by
  rw [zigzag]
  split <;> omega

/-- A number that is written in the way of its type stands for a value of the
type. -/
theorem admits_ofNumber (htype : type.IsPackable) (hnarrow : type.IsNarrow → n < 0x100000000)
    (hwidth : type.wireType = .thirtyTwoBit → n < 0x100000000) :
    type.Admits (ofNumber type n) := by
  cases type with
  | string => exact absurd rfl htype.1
  | bytes => exact absurd rfl htype.1
  | message => exact absurd rfl htype.1
  | group => exact absurd rfl htype.2
  | bool => trivial
  | enum => trivial
  | int64 => trivial
  | sint64 => trivial
  | uint64 => trivial
  | fixed64 => trivial
  | sfixed64 => trivial
  | double => trivial
  | float => trivial
  | int32 => exact toInt_int32 _
  | sfixed32 => exact toInt_int32 _
  | uint32 =>
      show (UInt64.ofNat n).toNat < 0x100000000
      have hn := hnarrow (Or.inl rfl)
      rw [UInt64.toNat_ofNat', Nat.mod_eq_of_lt (Nat.lt_trans hn (by decide))]
      exact hn
  | fixed32 =>
      show (UInt64.ofNat n).toNat < 0x100000000
      have hn := hwidth rfl
      rw [UInt64.toNat_ofNat', Nat.mod_eq_of_lt (Nat.lt_trans hn (by decide))]
      exact hn
  | sint32 =>
      show -0x80000000 ≤ (Int64.ofInt (zigzag n)).toInt ∧ (Int64.ofInt (zigzag n)).toInt < 0x80000000
      have hrange := zigzag_range (hnarrow (Or.inr rfl))
      rw [Int64.toInt_ofInt_of_le (by omega) (by omega)]
      exact hrange

/-! ## Single records -/

/-- A varint that a record holds after its key, given how the record is written. -/
inductive VarintIn : WireType → Bytes → Nat → Prop where
  | single {bs rest : Bytes} {n : Nat} (hread : varint bs = .ok (n, rest)) : VarintIn .varint bs n
  | packed {bs payload rest last : Bytes} {ns : List Nat} {n : Nat}
      (hpayload : delimited bs = .ok (payload, rest))
      (hread : Wire.repeatUntil 0 varint payload = .ok (ns, last)) (hn : n ∈ ns) :
      VarintIn .lengthDelimited bs n

/-- A record may be written in this way for a type: it is a group, which sets
nothing, or it is in the way of the type and its varints are not too large. -/
def Accepts (type : FieldType) (got : WireType) (bs : Bytes) : Prop :=
  got = .startGroup ∨
    (type.Fits got ∧ (type.IsNarrow → ∀ n, VarintIn got bs n → n < 0x100000000))

theorem exactly_ok {what : String} (h : exactly what n bs = .ok (payload, rest)) :
    payload.length = n := by
  rw [exactly] at h
  split at h
  · next hlength =>
    cases h
    exact List.length_take_of_le hlength
  · cases h

/-- One number that is read in the way of its type. -/
theorem admits_of_readScalar (htype : type.IsPackable)
    (hnarrow : type.IsNarrow → ∀ n rest, varint bs = .ok (n, rest) → n < 0x100000000)
    (h : readScalar type.wireType type bs = .ok (value, rest)) : type.Admits value := by
  have hadmits {n : Nat} := admits_ofNumber (n := n) htype
  simp only [ofNumber] at hadmits
  obtain ⟨hdelimited, hstart⟩ := htype
  generalize hwire : type.wireType = got at h hdelimited hstart hadmits
  cases got with
  | lengthDelimited => exact absurd rfl hdelimited
  | startGroup => exact absurd rfl hstart
  | endGroup => cases h
  | varint =>
      rw [readScalar] at h
      cases hread : varint bs with
      | error e => rw [hread] at h; cases h
      | ok found =>
          rw [hread] at h
          cases h
          exact hadmits (fun htype => hnarrow htype _ _ hread) (by rintro ⟨⟩)
  | thirtyTwoBit =>
      rw [readScalar] at h
      cases hread : exactly type.keyword 4 bs with
      | error e => rw [hread] at h; cases h
      | ok found =>
          rw [hread] at h
          cases h
          have hlt := Wire.littleEndian_lt found.1
          rw [exactly_ok hread] at hlt
          exact hadmits (fun _ => hlt) (fun _ => hlt)
  | sixtyFourBit =>
      rw [readScalar] at h
      cases hread : exactly type.keyword 8 bs with
      | error e => rw [hread] at h; cases h
      | ok found =>
          rw [hread] at h
          cases h
          refine hadmits (fun htype => ?_) (by rintro ⟨⟩)
          rcases htype with rfl | rfl <;> cases hwire

/-- Numbers written back to back. -/
theorem admits_of_readPacked (htype : type.IsPackable)
    (hnarrow : type.IsNarrow → ∀ ns rest, Wire.repeatUntil 0 varint bs = .ok (ns, rest) →
      ∀ n ∈ ns, n < 0x100000000)
    (h : readPacked type bs = .ok values) : ∀ value ∈ values, type.Admits value := by
  rw [readPacked, packedAs_eq htype] at h
  cases hrun : Wire.repeatUntil 0 (readScalar type.wireType type) bs with
  | error e => rw [hrun] at h; cases h
  | ok found =>
      obtain ⟨found, last⟩ := found
      rw [hrun] at h
      cases h
      by_cases hvarint : type.IsNarrow
      · -- The values are those of the varints in the run, which are known to be small.
        have hwire : type.wireType = .varint := by rcases hvarint with rfl | rfl <;> rfl
        rw [hwire] at hrun
        have hscalar : readScalar .varint type = fun bs => (varint bs).map
            fun read => (ofVarint type read.1, read.2) := rfl
        rw [hscalar, Wire.repeatUntil_map] at hrun
        cases hread : Wire.repeatUntil 0 varint bs with
        | error e => rw [hread] at hrun; cases hrun
        | ok read =>
            rw [hread] at hrun
            cases hrun
            intro value hvalue
            obtain ⟨n, hn, rfl⟩ := List.mem_map.mp hvalue
            have hadmits := admits_ofNumber htype
              (fun htype => hnarrow htype _ _ hread n hn) (by rw [hwire]; rintro ⟨⟩)
            rwa [ofNumber, hwire] at hadmits
      · refine Wire.forall_of_repeatUntil (P := fun _ => True) ?_ trivial hrun
        exact fun bs value rest _ hread =>
          ⟨admits_of_readScalar htype (fun htype => absurd htype hvarint) hread, trivial⟩

/-- A length-delimited record of a type that may be written so. -/
theorem admits_of_delimited (hfits : type.Fits .lengthDelimited)
    (hnarrow : type.IsNarrow → ∀ n, VarintIn .lengthDelimited bs n → n < 0x100000000)
    (h : readValues type ⟨number, .lengthDelimited⟩ bs = .ok (values, rest)) :
    ∀ value ∈ values, type.Admits value := by
  dsimp only [readValues] at h
  cases hpayload : delimited bs with
  | error e => rw [hpayload] at h; cases h
  | ok found =>
    obtain ⟨payload, after⟩ := found
    rw [hpayload] at h
    by_cases htype : type.IsPackable
    · have hread : (readPacked type payload).map (fun values => (values, after)) =
          .ok (values, rest) := by
        cases type with
        | string => exact absurd rfl htype.1
        | bytes => exact absurd rfl htype.1
        | message => exact absurd rfl htype.1
        | _ => exact h
      cases hrun : readPacked type payload with
      | error e => rw [hrun] at hread; cases hread
      | ok found =>
          rw [hrun] at hread
          cases hread
          exact admits_of_readPacked htype
            (fun htype ns last hns n hn => hnarrow htype n (.packed hpayload hns hn)) hrun
    · -- What is not a number is one value, as long as the record.
      have hwire : type.wireType = .lengthDelimited :=
        hfits.elim Eq.symm fun hpacked => absurd hpacked.2 htype
      cases type with
      | string => cases h; simp [FieldType.Admits]
      | bytes => cases h; simp [FieldType.Admits]
      | message => cases h; simp [FieldType.Admits]
      | _ => cases hwire

/-- A group sets nothing, whatever the declared type. -/
theorem eq_nil_of_startGroup
    (h : readValues type ⟨number, .startGroup⟩ bs = .ok (values, rest)) : values = [] := by
  dsimp only [readValues] at h
  cases hskip : skipRecord ⟨number, .startGroup⟩ bs with
  | error e => rw [hskip] at h; cases h
  | ok after =>
      rw [hskip] at h
      cases h
      rfl

/-- A record that may be written as it is gives values of the declared type. -/
theorem readValues_admits (haccepts : Accepts type key.type bs)
    (h : readValues type key bs = .ok (values, rest)) : ∀ value ∈ values, type.Admits value := by
  have hscalar (hwire : key.type = type.wireType) (htype : type.IsPackable)
      (hnarrow : type.IsNarrow → ∀ n, VarintIn key.type bs n → n < 0x100000000)
      (hread : (readScalar key.type type bs).map (fun read => ([read.1], read.2)) =
        .ok (values, rest)) : ∀ value ∈ values, type.Admits value := by
    cases hrun : readScalar key.type type bs with
    | error e => rw [hrun] at hread; cases hread
    | ok found =>
        rw [hrun] at hread
        cases hread
        rw [hwire] at hrun
        refine List.forall_mem_singleton.mpr (admits_of_readScalar htype ?_ hrun)
        intro hwide n after hvarint
        refine hnarrow hwide n ?_
        have hvarintType : type.wireType = .varint := by rcases hwide with rfl | rfl <;> rfl
        rw [hwire, hvarintType]
        exact .single hvarint
  obtain ⟨number, got⟩ := key
  rcases haccepts with hgroup | ⟨hfits, hnarrow⟩
  · obtain rfl : got = .startGroup := hgroup
    rw [eq_nil_of_startGroup h]
    simp
  · have hsame (hgot : got ≠ .lengthDelimited) : got = type.wireType :=
      hfits.elim id fun hpacked => absurd hpacked.1 hgot
    have hpackable (hgot : got ≠ .lengthDelimited) (hstart : got ≠ .startGroup) :
        type.IsPackable := by
      rw [FieldType.IsPackable, ← hsame hgot]
      exact ⟨hgot, hstart⟩
    cases got with
    | lengthDelimited => exact admits_of_delimited hfits hnarrow h
    | startGroup =>
        rw [eq_nil_of_startGroup h]
        simp
    | endGroup => cases type <;> cases hsame (by decide)
    | varint => exact hscalar (hsame (by decide)) (hpackable (by decide) (by decide)) hnarrow h
    | thirtyTwoBit =>
        exact hscalar (hsame (by decide)) (hpackable (by decide) (by decide)) hnarrow h
    | sixtyFourBit =>
        exact hscalar (hsame (by decide)) (hpackable (by decide) (by decide)) hnarrow h

/-! ## Whole messages -/

/-- Reading an options message comes to a record with this key, and these bytes
follow the key. -/
inductive Visits (registry : Registry) (extendee : String) : Bytes → Key → Bytes → Prop where
  | here {bs after : Bytes} {key : Key} (hkey : readKey bs = .ok (key, after)) :
      Visits registry extendee bs key after
  | later {bs rest after : Bytes} {key : Key} {found : List CustomOption}
      (hrecord : readRecord registry extendee bs = .ok (found, rest))
      (hlater : Visits registry extendee rest key after) : Visits registry extendee bs key after

/-- Every record of an extension is written as its declared type asks for. -/
def WrittenAsDeclared (registry : Registry) (extendee : String) (bs : Bytes) : Prop :=
  ∀ key after e, Visits registry extendee bs key after →
    extensionOf registry extendee key.number = some e → Accepts e.valueType key.type after

theorem writtenAsDeclared_nil : WrittenAsDeclared registry extendee [] := by
  intro key after e hvisits
  cases hvisits with
  | here hkey => cases hkey
  | later hrecord _ => cases hrecord

/-- One record, and what is left after it. -/
theorem WrittenAsDeclared.of_record (key : Key) (after : Bytes) (found : List CustomOption)
    (hrest : WrittenAsDeclared registry extendee rest) (hkey : readKey bs = .ok (key, after))
    (hrecord : readRecord registry extendee bs = .ok (found, rest))
    (haccepts : ∀ e, extensionOf registry extendee key.number = some e →
      Accepts e.valueType key.type after) : WrittenAsDeclared registry extendee bs := by
  intro key' after' e hvisits hfind
  cases hvisits with
  | here hkey' =>
      cases hkey.symm.trans hkey'
      exact haccepts e hfind
  | later hrecord' hlater =>
      cases hrecord.symm.trans hrecord'
      exact hrest key' after' e hlater hfind

/-- An option is one of a registered extension, with a value of its type. -/
def IsTyped (registry : Registry) (extendee : String) (o : CustomOption) : Prop :=
  ∃ e, registry.findByNumber extendee o.number = some e ∧ o.name = e.fullName ∧
    e.valueType.Admits o.value

/-- What one record sets. -/
theorem isTyped_of_readRecord {found : List CustomOption} (hregistry : registry.IsKeyed)
    (hwritten : WrittenAsDeclared registry extendee bs)
    (h : readRecord registry extendee bs = .ok (found, rest)) :
    ∀ o ∈ found, IsTyped registry extendee o := by
  rw [readRecord] at h
  cases hkey : readKey bs with
  | error f => rw [hkey] at h; cases h
  | ok read =>
    obtain ⟨key, after⟩ := read
    rw [hkey] at h
    dsimp only at h
    cases hfind : extensionOf registry extendee key.number with
    | none =>
        rw [hfind] at h
        dsimp only at h
        cases hskip : skipRecord key after with
        | error e => rw [hskip] at h; cases h
        | ok last =>
            rw [hskip] at h
            cases h
            exact fun o ho => absurd ho List.not_mem_nil
    | some e =>
        rw [hfind] at h
        dsimp only at h
        cases hvalues : readValues e.valueType key after with
        | error fault => rw [hvalues] at h; cases h
        | ok read =>
            rw [hvalues] at h
            cases h
            have hregistered : registry.findByNumber extendee e.number = some e := by
              rw [extensionOf] at hfind
              split at hfind
              · have hnumber : e.number = Int32.ofNat key.number :=
                  congrArg Prod.snd (hregistry _ e hfind)
                rw [hnumber]
                exact hfind
              · cases hfind
            intro o ho
            obtain ⟨value, hvalue, rfl⟩ := List.mem_map.mp ho
            exact ⟨e, hregistered, rfl,
              readValues_admits (hwritten key after e (.here hkey) hfind) hvalues value hvalue⟩

/-- Where every record of an extension is written as its type asks for, each
option that is read has a value of the declared type. -/
theorem decode_admits {set : FileSet} {found : List CustomOption}
    (hwritten : WrittenAsDeclared (Registry.ofSet set) extendee bs)
    (h : decode (Registry.ofSet set) extendee bs = .ok found) :
    ∀ o ∈ found, IsTyped (Registry.ofSet set) extendee o := by
  rw [decode] at h
  cases hrun : Wire.repeatUntil 0 (readRecord (Registry.ofSet set) extendee) bs with
  | error e => rw [hrun] at h; cases h
  | ok read =>
      rw [hrun] at h
      cases h
      intro o ho
      obtain ⟨some, hsome, hmem⟩ := List.mem_flatten.mp ho
      -- What is left after a record is visited by the same run.
      refine Wire.forall_of_repeatUntil (P := WrittenAsDeclared (Registry.ofSet set) extendee)
        (Q := fun found => ∀ o ∈ found, IsTyped (Registry.ofSet set) extendee o)
        (fun bs found rest hwritten hrecord => ⟨?_, ?_⟩) hwritten hrun some hsome o hmem
      · exact isTyped_of_readRecord (Registry.isKeyed_ofSet set) hwritten hrecord
      · exact fun key after e hvisits => hwritten key after e (.later hrecord hvisits)

/-- A level of minus three, two weights in one record, a tag, and a ratio. -/
def metaBytes : Bytes :=
  [0x88, 0xB5, 0x18, 0x05, 0x9A, 0xB5, 0x18, 0x08, 1, 0, 0, 0, 2, 0, 0, 0,
    0x92, 0xB5, 0x18, 0x02, 111, 107, 0xA5, 0xB5, 0x18, 0, 0, 0xC0, 0x3F]

/-- Each of four records is written as its extension is declared. -/
theorem decode_admits_metaBytes :
    WrittenAsDeclared (Registry.ofSet metaSet) "google.protobuf.FieldOptions" metaBytes ∧
      decode (Registry.ofSet metaSet) "google.protobuf.FieldOptions" metaBytes =
        .ok metaOptions ∧
      ∀ o ∈ metaOptions, IsTyped (Registry.ofSet metaSet) "google.protobuf.FieldOptions" o := by
  have hdecode : decode (Registry.ofSet metaSet) "google.protobuf.FieldOptions" metaBytes =
      .ok metaOptions := by decide +kernel
  have hwritten : WrittenAsDeclared (Registry.ofSet metaSet) "google.protobuf.FieldOptions"
      metaBytes := by
    have hratio : WrittenAsDeclared (Registry.ofSet metaSet) "google.protobuf.FieldOptions"
        (metaBytes.drop 22) := by
      refine .of_record ⟨50004, .thirtyTwoBit⟩ (metaBytes.drop 25) (metaOptions.drop 4)
        writtenAsDeclared_nil rfl (by decide +kernel) ?_
      intro e he
      obtain rfl := Option.some.inj he
      exact Or.inr ⟨by decide, by rintro (⟨⟨⟩⟩ | ⟨⟨⟩⟩)⟩
    have htag : WrittenAsDeclared (Registry.ofSet metaSet) "google.protobuf.FieldOptions"
        (metaBytes.drop 16) := by
      refine .of_record ⟨50002, .lengthDelimited⟩ (metaBytes.drop 19)
        ((metaOptions.drop 3).take 1) hratio rfl (by decide +kernel) ?_
      intro e he
      obtain rfl := Option.some.inj he
      exact Or.inr ⟨by decide, by rintro (⟨⟨⟩⟩ | ⟨⟨⟩⟩)⟩
    have hweights : WrittenAsDeclared (Registry.ofSet metaSet) "google.protobuf.FieldOptions"
        (metaBytes.drop 4) := by
      refine .of_record ⟨50003, .lengthDelimited⟩ (metaBytes.drop 7)
        ((metaOptions.drop 1).take 2) htag rfl (by decide +kernel) ?_
      intro e he
      obtain rfl := Option.some.inj he
      exact Or.inr ⟨by decide, by rintro (⟨⟨⟩⟩ | ⟨⟨⟩⟩)⟩
    refine .of_record ⟨50001, .varint⟩ (metaBytes.drop 3) (metaOptions.take 1)
      hweights rfl (by decide +kernel) ?_
    intro e he
    obtain rfl := Option.some.inj he
    refine Or.inr ⟨by decide, fun _ n hn => ?_⟩
    cases hn with
    | single hread =>
        cases hread
        decide
  exact ⟨hwritten, hdecode, decode_admits hwritten hdecode⟩

/-- An options message and two extensions of it. -/
def limitSet : FileSet where
  files :=
    [{ name := "acme/limits.proto"
       package := "acme.limits"
       extensions :=
         [{ name := "hidden", number := 50001, type := .bool
            extendee := ".google.protobuf.FieldOptions" },
          { name := "limit", number := 50002, type := .uint32
            extendee := ".google.protobuf.FieldOptions" }] }]

/-- Four bytes for a truth value give a number, and a varint of more than 32 bits
gives a number that the declared type does not have. -/
theorem decode_mistypes :
    decode (Registry.ofSet limitSet) "google.protobuf.FieldOptions"
        [0x8D, 0xB5, 0x18, 1, 0, 0, 0, 0x90, 0xB5, 0x18, 0x80, 0x80, 0x80, 0x80, 0x10] =
      .ok [⟨"acme.limits.hidden", 50001, .uint 1⟩,
        ⟨"acme.limits.limit", 50002, .uint 0x100000000⟩] ∧
      ¬ IsTyped (Registry.ofSet limitSet) "google.protobuf.FieldOptions"
        ⟨"acme.limits.hidden", 50001, .uint 1⟩ ∧
      ¬ IsTyped (Registry.ofSet limitSet) "google.protobuf.FieldOptions"
        ⟨"acme.limits.limit", 50002, .uint 0x100000000⟩ := by
  refine ⟨by decide +kernel, ?_, ?_⟩
  · rintro ⟨e, he, -, hadmits⟩
    obtain rfl := Option.some.inj he
    exact hadmits
  · rintro ⟨e, he, -, hadmits⟩
    obtain rfl := Option.some.inj he
    have hlimit : (0x100000000 : UInt64).toNat < 0x100000000 := hadmits
    exact absurd hlimit (by decide)

end CustomOption

end SchemaGraph

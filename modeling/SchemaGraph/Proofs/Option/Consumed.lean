import SchemaGraph.Proofs.Option.Typed
import SchemaGraph.Proofs.Wire.Frame

/-!
# What reading an option takes

The bytes that a successful read takes off the front, for every reader of option
bytes: a varint takes the bytes of one varint (`exists_isVarint`), a key those of a
key (`exists_isKey_of_readKey`), skipping inside groups those that end the groups
(`exists_closes`), and a record those of one well-formed record
(`readRecord_consumes`).

The readers go by these bytes alone.  With others after them, the result is the same
and the others are left.  So a run over records goes on with what is appended to its
bytes (`decode_append`).
-/

namespace SchemaGraph

namespace Wire

variable {n left : Nat} {key : Key} {bs rest : Bytes}

/-- Reading stops after the first byte that is not marked as followed by another. -/
theorem exists_marked (h : readVarintWithin (left + 1) bs = .ok (n, rest)) :
    ∃ front last, bs = front ++ last :: rest ∧ (∀ b ∈ front, 0x80 ≤ b) ∧ last < 0x80 ∧
      front.length ≤ left ∧ sevenBits (front ++ [last]) = n ∧ n < 2 ^ (7 * left + 1) := by
  induction bs generalizing left n rest with
  | nil => cases h
  | cons b tail ih =>
      rw [readVarintWithin] at h
      split at h
      · next hlast =>
        have hsmall : b.toNat < 128 := UInt8.lt_iff_toNat_lt.mp hlast
        split at h
        · cases h
        · next hbit =>
          cases h
          refine ⟨[], b, rfl, by simp, hlast, Nat.zero_le _, ?_, ?_⟩
          · simp only [List.nil_append, sevenBits]
            omega
          · -- Only one bit is left in the tenth byte.
            by_cases hleft : left = 0
            · subst hleft
              have hone : ¬ 1 < b := fun hlarge => hbit ⟨rfl, hlarge⟩
              exact Nat.lt_succ_of_le (UInt8.le_iff_toNat_le.mp (UInt8.not_lt.mp hone))
            · calc b.toNat < 2 ^ 7 := hsmall
                _ ≤ 2 ^ (7 * left + 1) := Nat.pow_le_pow_right Nat.two_pos (by omega)
      · next hmarked =>
        cases left with
        | zero => cases h
        | succ left =>
            split at h
            · cases h
            · next m mid hrest =>
              cases h
              obtain ⟨front, last, rfl, hfront, hlast, hlength, hvalue, hrange⟩ := ih hrest
              have hlarge : 128 ≤ b.toNat := UInt8.le_iff_toNat_le.mp (UInt8.not_lt.mp hmarked)
              have hbyte := b.toNat_lt
              have hpow : 2 ^ (7 * (left + 1) + 1) = 0x80 * 2 ^ (7 * left + 1) := by
                rw [show 7 * (left + 1) + 1 = 7 + (7 * left + 1) by omega, Nat.pow_add]
              refine ⟨b :: front, last, rfl, ?_, hlast, Nat.succ_le_succ hlength, ?_, by omega⟩
              · exact List.forall_mem_cons.mpr ⟨UInt8.not_lt.mp hmarked, hfront⟩
              · rw [List.cons_append, sevenBits, hvalue]
                omega

/-- What reading a varint takes. -/
theorem exists_isVarint (h : readVarint bs = .ok (n, rest)) :
    ∃ used, IsVarint n used ∧ bs = used ++ rest := by
  obtain ⟨front, last, rfl, hfront, hlast, hlength, hvalue, hrange⟩ := exists_marked h
  refine ⟨front ++ [last], ⟨⟨front, last, rfl, hfront, hlast⟩, ?_, hvalue, ?_⟩, by simp⟩
  · rw [List.length_append, List.length_singleton]
    omega
  · omega

theorem WireType.toNat_of_ofNat? {type : WireType} (h : WireType.ofNat? n = some type) :
    type.toNat = n := by
  unfold WireType.ofNat? at h
  split at h <;> cases h <;> rfl

theorem Key.ofNat_eq_ok (h : Key.ofNat n = .ok key) :
    8 * key.number + key.type.toNat = n ∧ 1 ≤ key.number ∧ n < 0x100000000 := by
  rw [Key.ofNat] at h
  split at h
  · cases h
  · split at h
    · cases h
    · next type htype =>
      split at h
      · cases h
      · cases h
        have hlow := WireType.toNat_of_ofNat? htype
        dsimp only
        omega

/-- What reading a key takes. -/
theorem exists_isKey_of_readKey (h : readKey bs = .ok (key, rest)) :
    ∃ used, IsKey key.number key.type used ∧ bs = used ++ rest := by
  rw [readKey] at h
  split at h
  · cases h
  · next n after hread =>
    split at h
    · cases h
    · next found hkey =>
      cases h
      obtain ⟨used, hused, hbs⟩ := exists_isVarint hread
      obtain ⟨hvalue, hpositive, hrange⟩ := Key.ofNat_eq_ok hkey
      refine ⟨used, ⟨hpositive, ?_, ?_⟩, hbs⟩
      · omega
      · rw [hvalue]
        exact hused

/-- A run of a step that takes some bytes off the front, whatever follows them, goes
on with what is appended. -/
theorem repeatUntil_append_of_step {ε α : Type} {step : Bytes → Except ε (α × Bytes)}
    (hstep : ∀ bs a rest, step bs = .ok (a, rest) →
      ∃ used, used ≠ [] ∧ bs = used ++ rest ∧ ∀ tail, step (used ++ tail) = .ok (a, tail))
    {found : List α} (h : repeatUntil 0 step bs = .ok (found, rest)) (tail : Bytes) :
    repeatUntil 0 step (bs ++ tail) =
      (repeatUntil 0 step tail).map fun more => (found ++ more.1, more.2) := by
  induction bs using WellFounded.induction (measure List.length).wf generalizing found rest with
  | _ bs ih =>
    rw [repeatUntil] at h
    split at h
    · next hempty =>
      cases h
      rw [List.eq_nil_of_length_eq_zero (Nat.le_zero.mp hempty), List.nil_append]
      cases repeatUntil 0 step tail <;> rfl
    · split at h
      · cases h
      · next a mid hread =>
        obtain ⟨used, hused, rfl, htail⟩ := hstep _ _ _ hread
        have hshorter : mid.length < (used ++ mid).length := by
          rw [List.length_append]
          have := List.length_pos_iff.mpr hused
          omega
        rw [if_pos hshorter] at h
        split at h
        · cases h
        · next more last hmore =>
          cases h
          rw [List.append_assoc, repeatUntil_append hused (htail _), ih mid hshorter hmore]
          cases repeatUntil 0 step tail <;> rfl

end Wire

namespace CustomOption

open Wire

variable {n number : Nat} {type : FieldType} {key : Key} {bs rest front : Bytes}

/-! ## Payloads -/

theorem readVarint_of_varint (h : varint bs = .ok (n, rest)) : readVarint bs = .ok (n, rest) := by
  rw [varint] at h
  split at h
  · cases h
  · next hread => rw [hread, Except.ok.inj h]

theorem exists_isVarint_of_varint (h : varint bs = .ok (n, rest)) :
    ∃ used, IsVarint n used ∧ bs = used ++ rest :=
  exists_isVarint (readVarint_of_varint h)

theorem exactly_eq_ok {what : String} {payload : Bytes}
    (h : exactly what n bs = .ok (payload, rest)) : payload.length = n ∧ bs = payload ++ rest := by
  refine ⟨exactly_ok h, ?_⟩
  rw [exactly] at h
  split at h
  · cases h
    exact (List.take_append_drop n bs).symm
  · cases h

theorem delimited_eq_ok {payload : Bytes} (h : delimited bs = .ok (payload, rest)) :
    ∃ length, IsVarint payload.length length ∧ bs = length ++ (payload ++ rest) := by
  rw [delimited] at h
  split at h
  · cases h
  · next n after hread =>
    obtain ⟨length, hvarint, rfl⟩ := exists_isVarint_of_varint hread
    obtain ⟨rfl, rfl⟩ := exactly_eq_ok h
    exact ⟨length, hvarint, rfl⟩

/-- Skipping the payload of a record that is not a group. -/
theorem skipRecord_single (hkey : IsKey key.number key.type front) (hstart : key.type ≠ .startGroup)
    (h : skipRecord key bs = .ok rest) :
    ∃ used, Record key.number (front ++ used) ∧ bs = used ++ rest ∧
      ∀ tail, skipRecord key (used ++ tail) = .ok tail := by
  obtain ⟨number, got⟩ := key
  cases got with
  | startGroup => exact absurd rfl hstart
  | endGroup => cases h
  | varint =>
      obtain ⟨⟨n, after⟩, hread, rfl⟩ := exists_of_map_ok h
      obtain ⟨used, hused, rfl⟩ := exists_isVarint_of_varint hread
      exact ⟨used, .varint hkey hused, rfl, skipRecord_varint hused⟩
  | sixtyFourBit =>
      obtain ⟨⟨payload, after⟩, hread, rfl⟩ := exists_of_map_ok h
      obtain ⟨hlength, rfl⟩ := exactly_eq_ok hread
      exact ⟨payload, .sixtyFourBit hkey hlength, rfl, skipRecord_sixtyFourBit hlength⟩
  | thirtyTwoBit =>
      obtain ⟨⟨payload, after⟩, hread, rfl⟩ := exists_of_map_ok h
      obtain ⟨hlength, rfl⟩ := exactly_eq_ok hread
      exact ⟨payload, .thirtyTwoBit hkey hlength, rfl, skipRecord_thirtyTwoBit hlength⟩
  | lengthDelimited =>
      obtain ⟨⟨payload, after⟩, hread, rfl⟩ := exists_of_map_ok h
      obtain ⟨length, hlength, rfl⟩ := delimited_eq_ok hread
      exact ⟨length ++ payload, .lengthDelimited hkey hlength, by rw [List.append_assoc],
        skipRecord_lengthDelimited hlength⟩

/-! ## Groups -/

/-- Bytes that end open groups: for the innermost, any number of records and the key
that ends it, and then the same for those around it. -/
inductive Closes : List Nat → Bytes → Prop where
  | nil : Closes [] []
  | cons {group : Nat} {outer : List Nat} {inside close more : Bytes} (hinside : Records inside)
      (hclose : IsKey group .endGroup close) (hmore : Closes outer more) :
      Closes (group :: outer) (inside ++ (close ++ more))

theorem Closes.record {group : Nat} {outer : List Nat} {record more : Bytes}
    (h : Closes (group :: outer) more) (hrecord : Record number record) :
    Closes (group :: outer) (record ++ more) := by
  cases h with
  | cons hinside hclose hmore =>
      rw [← List.append_assoc]
      exact .cons (.cons hrecord hinside) hclose hmore

/-- A group that has been entered and left is a record of the one around it. -/
theorem Closes.leave {group : Nat} {outer : List Nat} {start more : Bytes}
    (h : Closes (number :: group :: outer) more) (hopen : IsKey number .startGroup start) :
    Closes (group :: outer) (start ++ more) := by
  cases h with
  | cons hinside hclose hmore =>
      have hgroup := hmore.record (.group hopen hinside hclose)
      simpa only [List.append_assoc] using hgroup

theorem exists_readKey_of_skipGroups {group : Nat} {outer : List Nat}
    (h : skipGroups (group :: outer) bs = .ok rest) : ∃ key after, readKey bs = .ok (key, after) := by
  rw [skipGroups] at h
  split at h
  · cases h
  · split at h
    · cases h
    · next key after hread => exact ⟨key, after, hread⟩

/-- What skipping inside groups takes. -/
theorem exists_closes {groups : List Nat} (h : skipGroups groups bs = .ok rest) :
    ∃ used, Closes groups used ∧ bs = used ++ rest := by
  induction bs using WellFounded.induction (measure List.length).wf generalizing groups rest with
  | _ bs ih =>
    cases groups with
    | nil =>
        rw [skipGroups] at h
        cases h
        exact ⟨[], .nil, rfl⟩
    | cons group outer =>
        obtain ⟨key, after, hread⟩ := exists_readKey_of_skipGroups h
        have hshorter : after.length < bs.length := readKey_length hread
        obtain ⟨front, hkey, rfl⟩ := exists_isKey_of_readKey hread
        rw [skipGroups_step hread] at h
        have hsingle (hstart : key.type ≠ .startGroup)
            (hskip : (skipRecord key after).bind (skipGroups (group :: outer)) = .ok rest) :
            ∃ used, Closes (group :: outer) used ∧ front ++ after = used ++ rest := by
          cases hpayload : skipRecord key after with
          | error e => rw [hpayload] at hskip; cases hskip
          | ok mid =>
              rw [hpayload] at hskip
              obtain ⟨payload, hrecord, rfl, -⟩ := skipRecord_single hkey hstart hpayload
              have hmid : mid.length ≤ (payload ++ mid).length :=
                (List.suffix_append payload mid).length_le
              obtain ⟨used, hused, rfl⟩ := ih mid (Nat.lt_of_le_of_lt hmid hshorter) hskip
              exact ⟨front ++ payload ++ used, hused.record hrecord, by simp⟩
        obtain ⟨number, got⟩ := key
        cases got with
        | endGroup =>
            dsimp only at h
            split at h
            · next hsame =>
              obtain ⟨used, hused, rfl⟩ := ih after hshorter h
              rw [← hsame]
              exact ⟨front ++ used, .cons .nil hkey hused, by simp⟩
            · cases h
        | startGroup =>
            obtain ⟨used, hused, rfl⟩ := ih after hshorter h
            exact ⟨front ++ used, hused.leave hkey, by simp⟩
        | varint => exact hsingle WireType.noConfusion h
        | sixtyFourBit => exact hsingle WireType.noConfusion h
        | thirtyTwoBit => exact hsingle WireType.noConfusion h
        | lengthDelimited => exact hsingle WireType.noConfusion h

/-- What skipping a record takes after its key. -/
theorem skipRecord_consumes (hkey : IsKey key.number key.type front)
    (h : skipRecord key bs = .ok rest) :
    ∃ used, Record key.number (front ++ used) ∧ bs = used ++ rest ∧
      ∀ tail, skipRecord key (used ++ tail) = .ok tail := by
  by_cases hstart : key.type = .startGroup
  · obtain ⟨number, got⟩ := key
    obtain rfl : got = .startGroup := hstart
    obtain ⟨used, hcloses, rfl⟩ := exists_closes h
    cases hcloses with
    | @cons _ _ inside close more hinside hclose hmore =>
      cases hmore
      rw [List.append_nil]
      refine ⟨inside ++ close, .group hkey hinside hclose, rfl, fun tail => ?_⟩
      dsimp only [skipRecord]
      rw [List.append_assoc, skipGroups_records hinside,
        skipGroups_step (readKey_append hclose tail)]
      dsimp only
      rw [if_pos rfl, skipGroups]
  · exact skipRecord_single hkey hstart h

/-! ## Records -/

/-- What reading one value takes. -/
theorem readScalar_consumes {got : WireType} {value : OptionValue} (hkey : IsKey number got front)
    (h : readScalar got type bs = .ok (value, rest)) :
    ∃ used, Record number (front ++ used) ∧ bs = used ++ rest ∧
      ∀ tail, readScalar got type (used ++ tail) = .ok (value, tail) := by
  cases got with
  | lengthDelimited => cases h
  | startGroup => cases h
  | endGroup => cases h
  | varint =>
      obtain ⟨⟨n, after⟩, hread, hvalue⟩ := exists_of_map_ok h
      cases hvalue
      obtain ⟨used, hused, rfl⟩ := exists_isVarint_of_varint hread
      refine ⟨used, .varint hkey hused, rfl, fun tail => ?_⟩
      dsimp only [readScalar]
      rw [varint_append hused]
      rfl
  | sixtyFourBit =>
      obtain ⟨⟨payload, after⟩, hread, hvalue⟩ := exists_of_map_ok h
      cases hvalue
      obtain ⟨hlength, rfl⟩ := exactly_eq_ok hread
      refine ⟨payload, .sixtyFourBit hkey hlength, rfl, fun tail => ?_⟩
      dsimp only [readScalar]
      rw [exactly_append _ hlength]
      rfl
  | thirtyTwoBit =>
      obtain ⟨⟨payload, after⟩, hread, hvalue⟩ := exists_of_map_ok h
      cases hvalue
      obtain ⟨hlength, rfl⟩ := exactly_eq_ok hread
      refine ⟨payload, .thirtyTwoBit hkey hlength, rfl, fun tail => ?_⟩
      dsimp only [readScalar]
      rw [exactly_append _ hlength]
      rfl

/-- The values of a length-delimited record with a given payload. -/
def payloadValues (type : FieldType) (payload : Bytes) : Except OptionError (List OptionValue) :=
  match type with
  | .string => .ok [.string (Text.Utf8.decodeLossy payload)]
  | .bytes => .ok [.bytes payload]
  | .message => .ok [.message payload]
  | _ => readPacked type payload

theorem readValues_lengthDelimited {payload : Bytes} (h : delimited bs = .ok (payload, rest)) :
    readValues type ⟨number, .lengthDelimited⟩ bs =
      (payloadValues type payload).map fun values => (values, rest) := by
  dsimp only [readValues]
  rw [h]
  cases type <;> rfl

/-- What reading the values of a record takes after its key. -/
theorem readValues_consumes {values : List OptionValue} (hkey : IsKey key.number key.type front)
    (h : readValues type key bs = .ok (values, rest)) :
    ∃ used, Record key.number (front ++ used) ∧ bs = used ++ rest ∧
      ∀ tail, readValues type key (used ++ tail) = .ok (values, tail) := by
  obtain ⟨number, got⟩ := key
  cases got with
  | endGroup => cases h
  | startGroup =>
      obtain ⟨after, hskip, hrest⟩ := exists_of_map_ok h
      cases hrest
      obtain ⟨used, hrecord, rfl, htail⟩ := skipRecord_consumes hkey hskip
      refine ⟨used, hrecord, rfl, fun tail => ?_⟩
      dsimp only [readValues]
      rw [htail tail]
      rfl
  | lengthDelimited =>
      cases hread : delimited bs with
      | error e =>
          dsimp only [readValues] at h
          rw [hread] at h
          cases h
      | ok found =>
          obtain ⟨payload, after⟩ := found
          rw [readValues_lengthDelimited hread] at h
          obtain ⟨some, hvalues, hrest⟩ := exists_of_map_ok h
          cases hrest
          obtain ⟨length, hlength, rfl⟩ := delimited_eq_ok hread
          refine ⟨length ++ payload, .lengthDelimited hkey hlength, by rw [List.append_assoc],
            fun tail => ?_⟩
          rw [List.append_assoc, readValues_lengthDelimited (delimited_append hlength tail), hvalues]
          rfl
  | _ =>
      obtain ⟨⟨value, after⟩, hread, hrest⟩ := exists_of_map_ok h
      cases hrest
      obtain ⟨used, hrecord, rfl, htail⟩ := readScalar_consumes hkey hread
      refine ⟨used, hrecord, rfl, fun tail => ?_⟩
      dsimp only [readValues]
      rw [htail tail]
      rfl

/-- Reading a record takes the bytes of one well-formed record, and it goes by these
bytes alone. -/
theorem readRecord_consumes {registry : Registry} {extendee : String} {found : List CustomOption}
    (h : readRecord registry extendee bs = .ok (found, rest)) :
    ∃ number used, Record number used ∧ bs = used ++ rest ∧
      ∀ tail, readRecord registry extendee (used ++ tail) = .ok (found, tail) := by
  rw [readRecord] at h
  split at h
  · cases h
  · next key after hread =>
    obtain ⟨front, hkey, rfl⟩ := exists_isKey_of_readKey hread
    cases hfind : extensionOf registry extendee key.number with
    | none =>
        rw [hfind] at h
        obtain ⟨last, hskip, hrest⟩ := exists_of_map_ok h
        cases hrest
        obtain ⟨used, hrecord, rfl, htail⟩ := skipRecord_consumes hkey hskip
        refine ⟨_, front ++ used, hrecord, by rw [List.append_assoc], fun tail => ?_⟩
        rw [List.append_assoc, readRecord, readKey_append hkey]
        dsimp only
        rw [hfind, htail tail]
        rfl
    | some e =>
        rw [hfind] at h
        obtain ⟨⟨values, last⟩, hvalues, hrest⟩ := exists_of_map_ok h
        cases hrest
        obtain ⟨used, hrecord, rfl, htail⟩ := readValues_consumes hkey hvalues
        refine ⟨_, front ++ used, hrecord, by rw [List.append_assoc], fun tail => ?_⟩
        rw [List.append_assoc, readRecord, readKey_append hkey]
        dsimp only
        rw [hfind]
        dsimp only
        rw [htail tail]
        rfl

/-- Decoding goes on with what is appended. -/
theorem decode_append {registry : Registry} {extendee : String} {xs : List CustomOption}
    (h : decode registry extendee bs = .ok xs) (tail : Bytes) :
    decode registry extendee (bs ++ tail) =
      (decode registry extendee tail).map fun more => xs ++ more := by
  obtain ⟨⟨found, rest⟩, hrun, rfl⟩ := exists_of_map_ok h
  have hstep (bs : Bytes) (found : List CustomOption) (rest : Bytes)
      (hread : readRecord registry extendee bs = .ok (found, rest)) :
      ∃ used, used ≠ [] ∧ bs = used ++ rest ∧
        ∀ tail, readRecord registry extendee (used ++ tail) = .ok (found, tail) := by
    obtain ⟨number, used, hrecord, hbs, htail⟩ := readRecord_consumes hread
    exact ⟨used, hrecord.ne_nil, hbs, htail⟩
  rw [decode, decode, repeatUntil_append_of_step hstep hrun tail]
  cases repeatUntil 0 (readRecord registry extendee) tail with
  | error e => rfl
  | ok more => simp [Except.map]

end CustomOption

end SchemaGraph

import SchemaGraph.Proofs.Option.Consumed

/-!
# Cuts within bounds

Taking more bytes off the front than there are has no result: a split or a slice
beyond the end is not a shorter one.  The decoder of this module is the one that
says so.  It cuts with `cut`, which is stuck beyond the end, and `ensure` alone keeps
it from getting there.

Being stuck is apart from rejecting the bytes: `none` is the one and `some (.error e)`
the other.  No bytes get the decoder stuck, and it gives what the decoder without
such cuts gives (`Checked.decode_eq`).

A varint is read one byte after the other, with a look at whether there is one, so
varints and keys are not cut off.

Together with what every record takes, this is what it means to decode two options
messages that are put one after the other (`decode_concatenates`).
-/

namespace SchemaGraph.CustomOption.Checked

open Wire (Bytes Key WireType readKey readVarint littleEndian)

variable {α β : Type} {bs rest : Bytes}

/-- What a step comes to, and `none` if it is stuck. -/
abbrev Outcome (α : Type) := Option (Except OptionError α)

/-- Goes on with what a step gives, unless it is stuck or fails. -/
def Outcome.andThen (x : Outcome α) (next : α → Outcome β) : Outcome β :=
  match x with
  | none => none
  | some (.error e) => some (.error e)
  | some (.ok a) => next a

/-- The first `n` bytes and those after them, of which there must be as many. -/
def cut (n : Nat) (bs : Bytes) : Option (Bytes × Bytes) :=
  if n ≤ bs.length then some (bs.take n, bs.drop n) else none

/-- Rejects bytes that are fewer than `n`. -/
def ensure (what : String) (n : Nat) (bs : Bytes) : Except OptionError Unit :=
  if bs.length < n then .error (.option (.truncated what n bs.length)) else .ok ()

/-! ## Payloads -/

/-- The next `n` bytes of a value that is called `what`. -/
def exactly (what : String) (n : Nat) (bs : Bytes) : Outcome (Bytes × Bytes) :=
  Outcome.andThen (some (ensure what n bs)) fun _ => (cut n bs).map .ok

/-- A length and as many bytes. -/
def delimited (bs : Bytes) : Outcome (Bytes × Bytes) :=
  Outcome.andThen (some (varint bs)) fun (n, rest) => exactly "length-delimited" n rest

theorem exactly_eq (what : String) (n : Nat) (bs : Bytes) :
    exactly what n bs = some (CustomOption.exactly what n bs) := by
  unfold exactly CustomOption.exactly ensure cut
  by_cases h : n ≤ bs.length
  · rw [if_neg (Nat.not_lt_of_le h), if_pos h, if_pos h]
    rfl
  · rw [if_pos (Nat.lt_of_not_le h), if_neg h, if_neg h]
    rfl

theorem delimited_eq (bs : Bytes) : delimited bs = some (CustomOption.delimited bs) := by
  unfold delimited CustomOption.delimited
  cases varint bs with
  | error e => rfl
  | ok read => exact exactly_eq _ _ _

/-! ## Skipping -/

/-- Skips the payload that follows a key, other than the records of a group: a key
that opens or ends a group has none of its own. -/
def skipSingle (type : WireType) (bs : Bytes) : Outcome Bytes :=
  match type with
  | .varint => some ((varint bs).map (·.2))
  | .sixtyFourBit => (exactly "fixed-width" 8 bs).map (·.map (·.2))
  | .thirtyTwoBit => (exactly "fixed-width" 4 bs).map (·.map (·.2))
  | .lengthDelimited => (delimited bs).map (·.map (·.2))
  | .startGroup | .endGroup => some (.ok bs)

theorem skipSingle_eq (key : Key) (hstart : key.type ≠ .startGroup) (hend : key.type ≠ .endGroup)
    (bs : Bytes) : skipSingle key.type bs = some (CustomOption.skipRecord key bs) := by
  obtain ⟨number, type⟩ := key
  cases type with
  | varint => rfl
  | sixtyFourBit => simp only [skipSingle, CustomOption.skipRecord, exactly_eq, Option.map_some]
  | thirtyTwoBit => simp only [skipSingle, CustomOption.skipRecord, exactly_eq, Option.map_some]
  | lengthDelimited =>
      simp only [skipSingle, CustomOption.skipRecord, delimited_eq, Option.map_some]
  | startGroup => exact absurd rfl hstart
  | endGroup => exact absurd rfl hend

theorem length_skipSingle {type : WireType} (h : skipSingle type bs = some (.ok rest)) :
    rest.length ≤ bs.length := by
  by_cases hgroup : type = .startGroup ∨ type = .endGroup
  · rcases hgroup with rfl | rfl <;> cases h <;> exact le_refl _
  · obtain ⟨hstart, hend⟩ := not_or.mp hgroup
    -- The number of the key plays no part in skipping what is not a group.
    obtain ⟨front, hkey⟩ := Wire.exists_isKey (le_refl 1) (by decide) type
    have hskip := (skipSingle_eq ⟨1, type⟩ hstart hend bs).symm.trans h
    obtain ⟨used, -, rfl, -⟩ := skipRecord_single hkey hstart (Option.some.inj hskip)
    exact (List.suffix_append used rest).length_le

/-- Skips everything up to the end of the innermost of the open groups, and
then of those around it. -/
def skipGroups : List Nat → Bytes → Outcome Bytes
  | [], bs => some (.ok bs)
  | group :: outer, bs =>
    if bs = [] then some (.error (.option (.unterminated group)))
    else
      match h : readKey bs with
      | .error f => some (.error (.wire f))
      | .ok (key, rest) =>
        have : rest.length < bs.length := Wire.readKey_length h
        match h : skipSingle key.type rest with
        | none => none
        | some (.error e) => some (.error e)
        | some (.ok after) =>
          have : after.length ≤ rest.length := length_skipSingle h
          match key.type with
          | .endGroup =>
            if key.number = group then skipGroups outer after
            else some (.error (.option (.closedBy group key.number)))
          | .startGroup => skipGroups (key.number :: group :: outer) after
          | _ => skipGroups (group :: outer) after
termination_by _ bs => bs.length

/-- Skips the payload of a record after its key. -/
def skipRecord (key : Key) (bs : Bytes) : Outcome Bytes :=
  match key.type with
  | .startGroup => skipGroups [key.number] bs
  | .endGroup => some (.error (.option (.unopened key.number)))
  | single => skipSingle single bs

theorem skipGroups_eq (groups : List Nat) (bs : Bytes) :
    skipGroups groups bs = some (CustomOption.skipGroups groups bs) := by
  induction bs using WellFounded.induction (measure List.length).wf generalizing groups with
  | _ bs ih =>
    cases groups with
    | nil => rw [skipGroups, CustomOption.skipGroups]
    | cons group outer =>
        rw [skipGroups]
        split
        · next hbs => rw [CustomOption.skipGroups, if_pos hbs]
        · next hbs =>
          split
          · next f hread =>
            rw [CustomOption.skipGroups, if_neg hbs]
            split
            · next f' hread' => cases hread.symm.trans hread'; rfl
            · next hread' => cases hread.symm.trans hread'
          · next key rest hread =>
            have hshorter : rest.length < bs.length := Wire.readKey_length hread
            rw [skipGroups_step hread]
            obtain ⟨number, type⟩ := key
            have hsingle (hstart : type ≠ .startGroup) (hend : type ≠ .endGroup) :=
              skipSingle_eq ⟨number, type⟩ hstart hend rest
            cases type with
            | endGroup =>
                simp only [skipSingle]
                split
                · exact ih rest hshorter outer
                · rfl
            | startGroup => exact ih rest hshorter _
            | _ =>
              have hskip := hsingle WireType.noConfusion WireType.noConfusion
              split
              · next hstuck => cases hskip.symm.trans hstuck
              · next e hfault =>
                dsimp only
                rw [Option.some.inj (hskip.symm.trans hfault)]
                rfl
              · next after hafter =>
                dsimp only
                rw [Option.some.inj (hskip.symm.trans hafter)]
                exact ih after (Nat.lt_of_le_of_lt (length_skipSingle hafter) hshorter) _

theorem skipRecord_eq (key : Key) (bs : Bytes) :
    skipRecord key bs = some (CustomOption.skipRecord key bs) := by
  unfold skipRecord
  split
  · next hstart => rw [skipGroups_eq, CustomOption.skipRecord, hstart]
  · next hend => rw [CustomOption.skipRecord, hend]
  · next hstart hend => exact skipSingle_eq key hstart hend bs

/-! ## Records -/

/-- One value of a type, written in a given way. -/
def readScalar (got : WireType) (type : FieldType) (bs : Bytes) : Outcome (OptionValue × Bytes) :=
  match got with
  | .varint => some ((varint bs).map fun (n, rest) => (ofVarint type n, rest))
  | .thirtyTwoBit =>
    (exactly type.keyword 4 bs).map
      (·.map fun (b, rest) => (ofFixed32 type (littleEndian b), rest))
  | .sixtyFourBit =>
    (exactly type.keyword 8 bs).map
      (·.map fun (b, rest) => (ofFixed64 type (littleEndian b), rest))
  | .lengthDelimited => some (.error (.option (.encoding .lengthDelimited type)))
  | .startGroup => some (.error (.option (.encoding .startGroup type)))
  | .endGroup => some (.error (.option (.encoding .endGroup type)))

theorem readScalar_eq (got : WireType) (type : FieldType) (bs : Bytes) :
    readScalar got type bs = some (CustomOption.readScalar got type bs) := by
  cases got with
  | sixtyFourBit => simp only [readScalar, CustomOption.readScalar, exactly_eq, Option.map_some]
  | thirtyTwoBit => simp only [readScalar, CustomOption.readScalar, exactly_eq, Option.map_some]
  | _ => rfl

/-- Repeats a step for as long as bytes remain. -/
def untilEmpty (step : Bytes → Outcome (α × Bytes)) (bs : Bytes) : Outcome (List α × Bytes) :=
  if bs.length ≤ 0 then some (.ok ([], bs))
  else
    (step bs).andThen fun (a, rest) =>
      if rest.length < bs.length then
        (untilEmpty step rest).andThen fun (as, rest) => some (.ok (a :: as, rest))
      else some (.ok ([a], rest))
termination_by bs.length

theorem untilEmpty_eq {step : Bytes → Outcome (α × Bytes)}
    {plain : Bytes → Except OptionError (α × Bytes)} (hstep : ∀ bs, step bs = some (plain bs))
    (bs : Bytes) : untilEmpty step bs = some (Wire.repeatUntil 0 plain bs) := by
  induction bs using WellFounded.induction (measure List.length).wf with
  | _ bs ih =>
    rw [untilEmpty, Wire.repeatUntil, hstep]
    split
    · rfl
    · cases plain bs with
      | error e => rfl
      | ok read =>
        obtain ⟨a, rest⟩ := read
        simp only [Outcome.andThen]
        split
        · next hshorter =>
          rw [ih rest hshorter]
          cases Wire.repeatUntil 0 plain rest <;> rfl
        · rfl

/-- All values written back to back in a byte string. -/
def readPacked (type : FieldType) (bs : Bytes) : Outcome (List OptionValue) :=
  (untilEmpty (readScalar (packedAs type) type) bs).map (·.map (·.1))

theorem readPacked_eq (type : FieldType) (bs : Bytes) :
    readPacked type bs = some (CustomOption.readPacked type bs) := by
  rw [readPacked, untilEmpty_eq (readScalar_eq (packedAs type) type)]
  rfl

/-- The values of one record of a type, after its key. -/
def readValues (type : FieldType) (key : Key) (bs : Bytes) : Outcome (List OptionValue × Bytes) :=
  match key.type with
  | .lengthDelimited =>
    (delimited bs).andThen fun (payload, rest) =>
      match type with
      | .string => some (.ok ([.string (Text.Utf8.decodeLossy payload)], rest))
      | .bytes => some (.ok ([.bytes payload], rest))
      | .message => some (.ok ([.message payload], rest))
      | _ => (readPacked type payload).map (·.map fun values => (values, rest))
  | .startGroup => (skipRecord key bs).map (·.map fun rest => ([], rest))
  | got => (readScalar got type bs).map (·.map fun (value, rest) => ([value], rest))

theorem readValues_eq (type : FieldType) (key : Key) (bs : Bytes) :
    readValues type key bs = some (CustomOption.readValues type key bs) := by
  obtain ⟨number, got⟩ := key
  cases got with
  | lengthDelimited =>
      simp only [readValues, CustomOption.readValues, delimited_eq]
      cases CustomOption.delimited bs with
      | error e => rfl
      | ok read =>
        obtain ⟨payload, rest⟩ := read
        cases type <;> simp only [Outcome.andThen, readPacked_eq, Option.map_some]
  | startGroup =>
      simp only [readValues, CustomOption.readValues, skipRecord_eq, Option.map_some]
  | _ => simp only [readValues, CustomOption.readValues, readScalar_eq, Option.map_some]

/-- One record: the options it sets, which are none if it is skipped. -/
def readRecord (registry : Registry) (extendee : String) (bs : Bytes) :
    Outcome (List CustomOption × Bytes) :=
  Outcome.andThen (some ((readKey bs).mapError .wire)) fun (key, rest) =>
    match extensionOf registry extendee key.number with
    | some e =>
      (readValues e.valueType key rest).map
        (·.map fun (values, rest) => (values.map fun v => ⟨e.fullName, e.number, v⟩, rest))
    | none => (skipRecord key rest).map (·.map fun rest => ([], rest))

theorem readRecord_eq (registry : Registry) (extendee : String) (bs : Bytes) :
    readRecord registry extendee bs = some (CustomOption.readRecord registry extendee bs) := by
  unfold readRecord CustomOption.readRecord
  cases readKey bs with
  | error f => rfl
  | ok read =>
    obtain ⟨key, rest⟩ := read
    simp only [Except.mapError, Outcome.andThen]
    cases extensionOf registry extendee key.number with
    | none => simp only [skipRecord_eq, Option.map_some]
    | some e => simp only [readValues_eq, Option.map_some]

/-- The custom options that the bytes of an options message set. -/
def decode (registry : Registry) (extendee : String) (bs : Bytes) : Outcome (List CustomOption) :=
  (untilEmpty (readRecord registry extendee) bs).map (·.map fun (found, _) => found.flatten)

/-- No bytes get the decoder stuck. -/
theorem decode_eq (registry : Registry) (extendee : String) (bs : Bytes) :
    decode registry extendee bs = some (CustomOption.decode registry extendee bs) := by
  rw [decode, untilEmpty_eq (readRecord_eq registry extendee)]
  rfl

end SchemaGraph.CustomOption.Checked

namespace SchemaGraph.CustomOption

open Wire (Bytes Record)

/-- What is appended to bytes that can be decoded is decoded as it is on its own: its
options come after those of the bytes before it, and its fault is the fault of the
whole.  A record takes its own bytes, all of them and none of those that follow, and
no cut is out of bounds. -/
theorem decode_concatenates (registry : Registry) (extendee : String) :
    (∀ a b xs, decode registry extendee a = .ok xs →
      decode registry extendee (a ++ b) = (decode registry extendee b).map fun ys => xs ++ ys) ∧
    (∀ bs found rest, readRecord registry extendee bs = .ok (found, rest) →
      ∃ number used, Record number used ∧ bs = used ++ rest ∧
        ∀ tail, readRecord registry extendee (used ++ tail) = .ok (found, tail)) ∧
    ∀ bs, Checked.decode registry extendee bs = some (decode registry extendee bs) := by
  refine ⟨?_, ?_, ?_⟩
  · intro a b xs ha
    exact decode_append ha b
  · intro bs found rest hread
    exact readRecord_consumes hread
  · intro bs
    exact Checked.decode_eq registry extendee bs

/-- A further tag comes last, and a key without its varint is a fault. -/
theorem decode_concatenates_metaBytes :
    decode (Registry.ofSet metaSet) "google.protobuf.FieldOptions" metaBytes = .ok metaOptions ∧
      decode (Registry.ofSet metaSet) "google.protobuf.FieldOptions"
          (metaBytes ++ [0x92, 0xB5, 0x18, 0x02, 111, 107]) =
        .ok (metaOptions ++ [⟨"acme.meta.tag", 50002, .string "ok"⟩]) ∧
      decode (Registry.ofSet metaSet) "google.protobuf.FieldOptions"
          (metaBytes ++ [0x88, 0xB5, 0x18]) = .error (.wire .varint) := by
  have hmeta : decode (Registry.ofSet metaSet) "google.protobuf.FieldOptions" metaBytes =
      .ok metaOptions := by decide +kernel
  obtain ⟨happend, -, -⟩ :=
    decode_concatenates (Registry.ofSet metaSet) "google.protobuf.FieldOptions"
  refine ⟨hmeta, ?_, ?_⟩
  · rw [happend _ _ _ hmeta]
    decide +kernel
  · rw [happend _ _ _ hmeta]
    decide +kernel

end SchemaGraph.CustomOption

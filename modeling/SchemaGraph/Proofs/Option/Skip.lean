import SchemaGraph.Option.Decoder
import SchemaGraph.Proofs.Wire.Varint

/-!
# Records and how they are skipped

What a well-formed record is, said without a reader: a key and the payload that
its wire type asks for, which for a group is any number of records and a key that
ends the group under its number (`Record`, `Records`).

Whatever the open groups, a record inside them is skipped as a whole
(`skipGroups_record`), so a record is skipped up to its last byte and no further
(`exists_skipRecord`).
-/

namespace SchemaGraph.Wire

mutual

/-- The bytes of one record of a field number. -/
inductive Record : Nat → Bytes → Prop where
  | varint {number n : Nat} {key payload : Bytes} (hkey : IsKey number .varint key)
      (hpayload : IsVarint n payload) : Record number (key ++ payload)
  | sixtyFourBit {number : Nat} {key payload : Bytes} (hkey : IsKey number .sixtyFourBit key)
      (hpayload : payload.length = 8) : Record number (key ++ payload)
  | thirtyTwoBit {number : Nat} {key payload : Bytes} (hkey : IsKey number .thirtyTwoBit key)
      (hpayload : payload.length = 4) : Record number (key ++ payload)
  | lengthDelimited {number : Nat} {key length payload : Bytes}
      (hkey : IsKey number .lengthDelimited key) (hlength : IsVarint payload.length length) :
      Record number (key ++ (length ++ payload))
  | group {number : Nat} {key inside close : Bytes} (hkey : IsKey number .startGroup key)
      (hinside : Records inside) (hclose : IsKey number .endGroup close) :
      Record number (key ++ (inside ++ close))

/-- The bytes of any number of records, one after the other. -/
inductive Records : Bytes → Prop where
  | nil : Records []
  | cons {number : Nat} {record rest : Bytes} (hrecord : Record number record)
      (hrest : Records rest) : Records (record ++ rest)

end

theorem Record.number_lt {number : Nat} {bs : Bytes} (h : Record number bs) : number < 0x20000000 := by
  cases h with
  | varint hkey _ => exact hkey.range
  | sixtyFourBit hkey _ => exact hkey.range
  | thirtyTwoBit hkey _ => exact hkey.range
  | lengthDelimited hkey _ => exact hkey.range
  | group hkey _ _ => exact hkey.range

theorem Record.ne_nil {number : Nat} {bs : Bytes} (h : Record number bs) : bs ≠ [] := by
  cases h with
  | varint hkey _ => simp [hkey.spelled.ne_nil]
  | sixtyFourBit hkey _ => simp [hkey.spelled.ne_nil]
  | thirtyTwoBit hkey _ => simp [hkey.spelled.ne_nil]
  | lengthDelimited hkey _ => simp [hkey.spelled.ne_nil]
  | group hkey _ _ => simp [hkey.spelled.ne_nil]

end SchemaGraph.Wire

namespace SchemaGraph.CustomOption

open Wire

variable {number n group : Nat} {type : WireType} {key payload bs rest : Bytes} {outer : List Nat}

/-! ## Single payloads -/

theorem varint_append (h : IsVarint n bs) (rest : Bytes) : varint (bs ++ rest) = .ok (n, rest) := by
  rw [varint, readVarint_append h]

theorem exactly_append (what : String) (h : payload.length = n) (rest : Bytes) :
    exactly what n (payload ++ rest) = .ok (payload, rest) := by
  rw [exactly, if_pos (by rw [List.length_append]; omega), List.take_left' h, List.drop_left' h]

theorem delimited_append (h : IsVarint payload.length bs) (rest : Bytes) :
    delimited (bs ++ (payload ++ rest)) = .ok (payload, rest) := by
  rw [delimited, varint_append h]
  exact exactly_append _ rfl rest

/-! ## Inside groups -/

/-- One step inside a group: after a key, the group is left or a further one
entered, or what follows is skipped as it is outside groups. -/
theorem skipGroups_step {key : Key} (hread : readKey bs = .ok (key, rest)) :
    skipGroups (group :: outer) bs =
      match key.type with
      | .endGroup =>
        if key.number = group then skipGroups outer rest
        else .error (.option (.closedBy group key.number))
      | .startGroup => skipGroups (key.number :: group :: outer) rest
      | _ => (skipRecord key rest).bind (skipGroups (group :: outer)) := by
  have hbs : bs ≠ [] := by
    rintro rfl
    cases hread
  rw [skipGroups, if_neg hbs]
  split
  · next hfault => cases hread.symm.trans hfault
  · next found after hfound =>
    cases hread.symm.trans hfound
    obtain ⟨number, type⟩ := key
    cases type with
    | endGroup => rfl
    | startGroup => rfl
    | varint =>
        dsimp only [skipRecord, varint]
        split
        · next fault hfault => rw [hfault]; rfl
        · next n after hfound => rw [hfound]; rfl
    | sixtyFourBit =>
        dsimp only [skipRecord, exactly]
        split <;> rfl
    | thirtyTwoBit =>
        dsimp only [skipRecord, exactly]
        split <;> rfl
    | lengthDelimited =>
        dsimp only [skipRecord, delimited, varint]
        split
        · next fault hfault => rw [hfault]; rfl
        · next n after hfound =>
          rw [hfound]
          dsimp only [exactly]
          split <;> rfl

/-- A record whose payload is skipped outside groups is skipped inside them. -/
theorem skipGroups_of_skipRecord (hkey : IsKey number type key) (hstart : type ≠ .startGroup)
    (hend : type ≠ .endGroup) (hskip : skipRecord ⟨number, type⟩ (payload ++ rest) = .ok rest) :
    skipGroups (group :: outer) (key ++ payload ++ rest) = skipGroups (group :: outer) rest := by
  rw [List.append_assoc, skipGroups_step (readKey_append hkey _)]
  cases type with
  | startGroup => exact absurd rfl hstart
  | endGroup => exact absurd rfl hend
  | varint => rw [hskip]; rfl
  | sixtyFourBit => rw [hskip]; rfl
  | thirtyTwoBit => rw [hskip]; rfl
  | lengthDelimited => rw [hskip]; rfl

theorem skipRecord_varint (h : IsVarint n payload) (rest : Bytes) :
    skipRecord ⟨number, .varint⟩ (payload ++ rest) = .ok rest := by
  dsimp only [skipRecord]
  rw [varint_append h]
  rfl

theorem skipRecord_sixtyFourBit (h : payload.length = 8) (rest : Bytes) :
    skipRecord ⟨number, .sixtyFourBit⟩ (payload ++ rest) = .ok rest := by
  dsimp only [skipRecord]
  rw [exactly_append _ h]
  rfl

theorem skipRecord_thirtyTwoBit (h : payload.length = 4) (rest : Bytes) :
    skipRecord ⟨number, .thirtyTwoBit⟩ (payload ++ rest) = .ok rest := by
  dsimp only [skipRecord]
  rw [exactly_append _ h]
  rfl

theorem skipRecord_lengthDelimited (h : IsVarint payload.length bs) (rest : Bytes) :
    skipRecord ⟨number, .lengthDelimited⟩ (bs ++ payload ++ rest) = .ok rest := by
  dsimp only [skipRecord]
  rw [List.append_assoc, delimited_append h]
  rfl

mutual

/-- A record inside a group is skipped. -/
theorem skipGroups_record {number : Nat} {bs : Bytes} (h : Record number bs) (group : Nat)
    (outer : List Nat) (rest : Bytes) :
    skipGroups (group :: outer) (bs ++ rest) = skipGroups (group :: outer) rest := by
  match h with
  | .varint hkey hpayload =>
    exact skipGroups_of_skipRecord hkey (by decide) (by decide) (skipRecord_varint hpayload rest)
  | .sixtyFourBit hkey hpayload =>
    exact skipGroups_of_skipRecord hkey (by decide) (by decide) (skipRecord_sixtyFourBit hpayload rest)
  | .thirtyTwoBit hkey hpayload =>
    exact skipGroups_of_skipRecord hkey (by decide) (by decide) (skipRecord_thirtyTwoBit hpayload rest)
  | .lengthDelimited hkey hlength =>
    exact skipGroups_of_skipRecord hkey (by decide) (by decide) (skipRecord_lengthDelimited hlength rest)
  | .group hkey hinside hclose =>
    rw [List.append_assoc, skipGroups_step (readKey_append hkey _)]
    dsimp only
    rw [List.append_assoc, skipGroups_records hinside,
      skipGroups_step (readKey_append hclose rest)]
    exact if_pos rfl

/-- Any number of records inside a group are skipped. -/
theorem skipGroups_records {bs : Bytes} (h : Records bs) (group : Nat) (outer : List Nat)
    (rest : Bytes) :
    skipGroups (group :: outer) (bs ++ rest) = skipGroups (group :: outer) rest := by
  match h with
  | .nil => rfl
  | .cons hrecord hrest =>
    rw [List.append_assoc, skipGroups_record hrecord, skipGroups_records hrest]

end

/-- A record is skipped up to its last byte, whatever follows. -/
theorem exists_skipRecord (h : Record number bs) (rest : Bytes) :
    ∃ key after, readKey (bs ++ rest) = .ok (key, after) ∧ key.number = number ∧
      skipRecord key after = .ok rest := by
  cases h with
  | varint hkey hpayload =>
      rw [List.append_assoc]
      exact ⟨_, _, readKey_append hkey _, rfl, skipRecord_varint hpayload rest⟩
  | sixtyFourBit hkey hpayload =>
      rw [List.append_assoc]
      exact ⟨_, _, readKey_append hkey _, rfl, skipRecord_sixtyFourBit hpayload rest⟩
  | thirtyTwoBit hkey hpayload =>
      rw [List.append_assoc]
      exact ⟨_, _, readKey_append hkey _, rfl, skipRecord_thirtyTwoBit hpayload rest⟩
  | lengthDelimited hkey hlength =>
      rw [List.append_assoc]
      exact ⟨_, _, readKey_append hkey _, rfl, skipRecord_lengthDelimited hlength rest⟩
  | group hkey hinside hclose =>
      rw [List.append_assoc]
      refine ⟨_, _, readKey_append hkey _, rfl, ?_⟩
      dsimp only [skipRecord]
      rw [List.append_assoc, skipGroups_records hinside,
        skipGroups_step (readKey_append hclose rest)]
      dsimp only
      rw [if_pos rfl, skipGroups]

end SchemaGraph.CustomOption

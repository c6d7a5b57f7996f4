import SchemaGraph.Proofs.Option.Consumed

/-!
# What skipping accepts

A record is skipped just when it is one of the grammar of `Record`: what follows its key
and is taken are the bytes of the record after the key, and groups may lie inside each
other to any depth, each ended under its own number.  Where an options message has no
extensions, its bytes are therefore accepted just when they are records one after the
other (`Records`), and no option is found.

Skipping keeps a list of the groups that are open.  `skipWithin` is the form in which each
group is skipped by a call of its own, with a bound on the calls that may wait for each
other; `skipGroups_append` is the step between the two.  Twice as many calls as there are
bytes are enough for every input, so skipping comes to an end, with a rest or a fault
(`skipWithin_eq`).

The main result is `skip_accepts`.
-/

namespace SchemaGraph.CustomOption

open Wire

variable {number n group budget : Nat} {type : WireType} {key : Key} {front bs rest : Bytes}
variable {inner outer : List Nat} {registry : Registry} {extendee : String}

/-! ## One record -/

/-- Skipping succeeds just on what a well-formed record has after its key. -/
theorem skipRecord_eq_ok_iff (hkey : IsKey key.number key.type front) :
    skipRecord key bs = .ok rest ↔
      ∃ payload, Record key.number (front ++ payload) ∧ bs = payload ++ rest := by
  constructor
  · intro hskip
    obtain ⟨payload, hrecord, hbs, -⟩ := skipRecord_consumes hkey hskip
    exact ⟨payload, hrecord, hbs⟩
  · rintro ⟨payload, hrecord, rfl⟩
    obtain ⟨found, after, hread, -, hskip⟩ := exists_skipRecord hrecord rest
    -- Only one key can be read off the front, whatever key the record was made with.
    rw [List.append_assoc, readKey_append hkey] at hread
    cases hread
    exact hskip

theorem length_skipRecord (hkey : IsKey key.number key.type front)
    (h : skipRecord key bs = .ok rest) : rest.length ≤ bs.length := by
  obtain ⟨payload, -, rfl, -⟩ := skipRecord_consumes hkey h
  exact (List.suffix_append payload rest).length_le

/-! ## Groups inside each other -/

/-- The groups inside are skipped first, and then those around them. -/
theorem skipGroups_append (inner outer : List Nat) (bs : Bytes) :
    skipGroups (inner ++ outer) bs = (skipGroups inner bs).bind (skipGroups outer) := by
  induction bs using WellFounded.induction (measure List.length).wf generalizing inner with
  | _ bs ih =>
    cases inner with
    | nil =>
        rw [List.nil_append, skipGroups]
        rfl
    | cons group inner =>
        rw [List.cons_append]
        cases hread : readKey bs with
        | error f =>
            rw [skipGroups, skipGroups]
            split
            · rfl
            · split
              · rfl
              · next hfound => cases hread.symm.trans hfound
        | ok found =>
            obtain ⟨key, after⟩ := found
            have hshorter : after.length < bs.length := readKey_length hread
            obtain ⟨front, hkey, -⟩ := exists_isKey_of_readKey hread
            rw [skipGroups_step hread, skipGroups_step hread]
            have hsingle : (skipRecord key after).bind (skipGroups (group :: (inner ++ outer))) =
                ((skipRecord key after).bind (skipGroups (group :: inner))).bind
                  (skipGroups outer) := by
              cases hskip : skipRecord key after with
              | error e => rfl
              | ok mid =>
                  have hmid := Nat.lt_of_le_of_lt (length_skipRecord hkey hskip) hshorter
                  exact ih mid hmid (group :: inner)
            obtain ⟨number, type⟩ := key
            cases type with
            | endGroup =>
                dsimp only
                split
                · exact ih after hshorter inner
                · rfl
            | startGroup => exact ih after hshorter (number :: group :: inner)
            | varint => exact hsingle
            | sixtyFourBit => exact hsingle
            | thirtyTwoBit => exact hsingle
            | lengthDelimited => exact hsingle

/-- A key inside a group that does not end one is that of a record, which is skipped as it
is outside groups. -/
theorem skipGroups_record_step (hread : readKey bs = .ok (key, rest)) (hend : key.type ≠ .endGroup) :
    skipGroups (group :: outer) bs = (skipRecord key rest).bind (skipGroups (group :: outer)) := by
  rw [skipGroups_step hread]
  obtain ⟨number, type⟩ := key
  cases type with
  | endGroup => exact absurd rfl hend
  | startGroup => exact skipGroups_append [number] (group :: outer) rest
  | varint => rfl
  | sixtyFourBit => rfl
  | thirtyTwoBit => rfl
  | lengthDelimited => rfl

mutual

/-- Skips the payload of a record after its key, with no more than `budget` calls that wait
for each other; `none` if these are too few. -/
def skipWithin : (budget : Nat) → Key → Bytes → Option (Except OptionError Bytes)
  | 0, _, _ => none
  | budget + 1, key, bs =>
    match key.type with
    | .startGroup => leaveWithin budget key.number bs
    | _ => some (skipRecord key bs)

/-- Skips records up to the key that ends a group. -/
def leaveWithin : (budget : Nat) → (group : Nat) → Bytes → Option (Except OptionError Bytes)
  | 0, _, _ => none
  | budget + 1, group, bs =>
    if bs = [] then some (.error (.option (.unterminated group)))
    else
      match readKey bs with
      | .error f => some (.error (.wire f))
      | .ok (key, rest) =>
        if key.type = .endGroup then
          if key.number = group then some (.ok rest)
          else some (.error (.option (.closedBy group key.number)))
        else
          match skipWithin budget key rest with
          | none => none
          | some (.error e) => some (.error e)
          | some (.ok after) => leaveWithin budget group after

end

theorem skipWithin_of_leave
    (hleave : leaveWithin budget key.number bs = some (skipGroups [key.number] bs)) :
    skipWithin (budget + 1) key bs = some (skipRecord key bs) := by
  obtain ⟨number, type⟩ := key
  cases type with
  | startGroup => exact hleave
  | varint => rfl
  | sixtyFourBit => rfl
  | thirtyTwoBit => rfl
  | lengthDelimited => rfl
  | endGroup => rfl

/-- A byte takes at most two calls: one for its key and one for what follows. -/
theorem leaveWithin_eq (hbudget : 2 * bs.length + 1 ≤ budget) :
    leaveWithin budget group bs = some (skipGroups [group] bs) := by
  induction bs using WellFounded.induction (measure List.length).wf generalizing budget group with
  | _ bs ih =>
    obtain ⟨budget, rfl⟩ : ∃ b, budget = b + 1 := ⟨budget - 1, by omega⟩
    rw [leaveWithin]
    split
    · next hempty => rw [skipGroups, if_pos hempty]
    · next hne =>
      split
      · next f hread =>
        rw [skipGroups, if_neg hne]
        split
        · next hfault => cases hread.symm.trans hfault; rfl
        · next hfound => cases hread.symm.trans hfound
      · next key rest hread =>
        have hshorter : rest.length < bs.length := readKey_length hread
        obtain ⟨front, hkey, -⟩ := exists_isKey_of_readKey hread
        split
        · next hend =>
          rw [skipGroups_step hread, hend]
          dsimp only
          split
          · rw [skipGroups]
          · rfl
        · next hend =>
          obtain ⟨budget, rfl⟩ : ∃ b, budget = b + 1 := ⟨budget - 1, by omega⟩
          have hskip : skipWithin (budget + 1) key rest = some (skipRecord key rest) :=
            skipWithin_of_leave (ih rest hshorter (by omega))
          rw [skipGroups_record_step hread hend, hskip]
          cases hrest : skipRecord key rest with
          | error e => rfl
          | ok after =>
              have hafter := length_skipRecord hkey hrest
              exact ih after (Nat.lt_of_le_of_lt hafter hshorter) (by omega)

/-- Skipping in the nested form ends and gives what skipping gives. -/
theorem skipWithin_eq (hbudget : 2 * bs.length + 2 ≤ budget) :
    skipWithin budget key bs = some (skipRecord key bs) := by
  obtain ⟨budget, rfl⟩ : ∃ b, budget = b + 1 := ⟨budget - 1, by omega⟩
  exact skipWithin_of_leave (leaveWithin_eq (by omega))

/-! ## Whole messages -/

/-- Each round of decoding leaves fewer bytes to read. -/
theorem length_readRecord {found : List CustomOption}
    (h : readRecord registry extendee bs = .ok (found, rest)) : rest.length < bs.length := by
  obtain ⟨number, used, hrecord, rfl, -⟩ := readRecord_consumes h
  have hused := List.length_pos_iff.mpr hrecord.ne_nil
  rw [List.length_append]
  omega

/-- A run over records takes records. -/
theorem records_of_repeatUntil {found : List (List CustomOption)}
    (h : repeatUntil 0 (readRecord registry extendee) bs = .ok (found, rest)) : Records bs := by
  induction bs using WellFounded.induction (measure List.length).wf generalizing found rest with
  | _ bs ih =>
    rw [repeatUntil] at h
    split at h
    · next hempty =>
      rw [List.eq_nil_of_length_eq_zero (Nat.le_zero.mp hempty)]
      exact .nil
    · split at h
      · cases h
      · next options mid hread =>
        have hshorter := length_readRecord hread
        rw [if_pos hshorter] at h
        split at h
        · cases h
        · next more last hmore =>
          obtain ⟨number, used, hrecord, rfl, -⟩ := readRecord_consumes hread
          exact .cons hrecord (ih mid hshorter hmore)

/-- Whatever is decoded has the form of records. -/
theorem records_of_decode {options : List CustomOption}
    (h : decode registry extendee bs = .ok options) : Records bs := by
  obtain ⟨⟨found, rest⟩, hrun, -⟩ := exists_of_map_ok h
  exact records_of_repeatUntil hrun

/-- Where no extensions are registered all records are skipped. -/
theorem decode_of_records (hnone : ∀ n, registry.findByNumber extendee n = none)
    (h : Records bs) : decode registry extendee bs = .ok [] := by
  induction bs using WellFounded.induction (measure List.length).wf with
  | _ bs ih =>
    cases h with
    | nil =>
        rw [decode, repeatUntil_nil]
        rfl
    | @cons number record rest hrecord hrest =>
        have hshorter : rest.length < (record ++ rest).length := by
          simpa using List.length_pos_iff.mpr hrecord.ne_nil
        have hread := readRecord_of_find_none (hnone _) hrecord rest
        obtain ⟨⟨found, last⟩, hrun, hfound⟩ := exists_of_map_ok (ih rest hshorter hrest)
        rw [decode, repeatUntil_append hrecord.ne_nil hread, hrun]
        exact congrArg Except.ok hfound

/-- Skipping takes the rest of one well-formed record after its key, so bytes without
registered extensions are accepted just when they are well-formed records, and rejected
otherwise.  It ends on all bytes: the nested calls within twice their number, and each
round of decoding with fewer bytes than it began with. -/
theorem skip_accepts :
    (∀ (number : Nat) (type : WireType) (front : Bytes), IsKey number type front →
      ∀ bs rest, skipRecord ⟨number, type⟩ bs = .ok rest ↔
        ∃ payload, Record number (front ++ payload) ∧ bs = payload ++ rest) ∧
    (∀ (registry : Registry) (extendee : String),
      (∀ n, registry.findByNumber extendee n = none) → ∀ bs,
        (decode registry extendee bs = .ok [] ↔ Records bs) ∧
        ((∃ e, decode registry extendee bs = .error e) ↔ ¬ Records bs)) ∧
    (∀ (key : Key) (bs : Bytes) (budget : Nat), 2 * bs.length + 2 ≤ budget →
      skipWithin budget key bs = some (skipRecord key bs)) ∧
    ∀ (registry : Registry) (extendee : String) (bs : Bytes) (found : List CustomOption)
      (rest : Bytes), readRecord registry extendee bs = .ok (found, rest) →
        rest.length < bs.length := by
  refine ⟨?_, ?_, ?_, ?_⟩
  · intro number type front hkey bs rest
    exact skipRecord_eq_ok_iff hkey
  · intro registry extendee hnone bs
    refine ⟨⟨records_of_decode, decode_of_records hnone⟩, ?_⟩
    cases hdecode : decode registry extendee bs with
    | error e =>
        simp only [Except.error.injEq, exists_eq', true_iff]
        intro hrecords
        cases hdecode.symm.trans (decode_of_records hnone hrecords)
    | ok options => simp [records_of_decode hdecode]
  · intro key bs budget hbudget
    exact skipWithin_eq hbudget
  · intro registry extendee bs found rest hread
    exact length_readRecord hread

/-- A group with a varint and another group in it. -/
def nestedGroups : Bytes := [0x3B, 0x08, 0x96, 0x01, 0x4B, 0x4C, 0x3C]

/-- The same with the two ends exchanged. -/
def crossedGroups : Bytes := [0x3B, 0x08, 0x96, 0x01, 0x4B, 0x3C, 0x4C]

/-- The nested groups are one record, whatever follows, and are skipped within the bound;
the crossed ones are rejected. -/
theorem skip_accepts_nestedGroups :
    IsKey 7 .startGroup [0x3B] ∧
      (∃ payload, Record 7 ([0x3B] ++ payload) ∧ nestedGroups.tail ++ [0x08] = payload ++ [0x08]) ∧
      (∀ n, (Registry.ofSet metaSet).findByNumber "google.protobuf.MessageOptions" n = none) ∧
      Records nestedGroups ∧ ¬ Records crossedGroups ∧
      2 * nestedGroups.tail.length + 2 ≤ 14 ∧
      skipWithin 14 ⟨7, .startGroup⟩ nestedGroups.tail = some (.ok []) ∧
      readRecord (Registry.ofSet metaSet) "google.protobuf.MessageOptions" nestedGroups =
        .ok ([], []) ∧
      ([] : Bytes).length < nestedGroups.length := by
  obtain ⟨hskips, hdecodes, hends, hrounds⟩ := skip_accepts
  have hkey : IsKey 7 .startGroup [0x3B] := ⟨by decide, by decide,
    ⟨[], 0x3B, rfl, by simp, by decide⟩, by decide, by decide, by decide⟩
  have hskip : skipRecord ⟨7, .startGroup⟩ (nestedGroups.tail ++ [0x08]) = .ok [0x08] := by
    decide +kernel
  have hnone (n : Int32) :
      (Registry.ofSet metaSet).findByNumber "google.protobuf.MessageOptions" n = none := rfl
  have hnested : decode (Registry.ofSet metaSet) "google.protobuf.MessageOptions" nestedGroups =
      .ok [] := by decide +kernel
  have hcrossed : decode (Registry.ofSet metaSet) "google.protobuf.MessageOptions" crossedGroups =
      .error (.option (.closedBy 9 7)) := by decide +kernel
  have hread : readRecord (Registry.ofSet metaSet) "google.protobuf.MessageOptions" nestedGroups =
      .ok ([], []) := by decide +kernel
  have hrest : skipRecord ⟨7, .startGroup⟩ nestedGroups.tail = .ok [] := by decide +kernel
  have hbudget : 2 * nestedGroups.tail.length + 2 ≤ 14 := by decide
  refine ⟨hkey, (hskips 7 .startGroup _ hkey _ _).mp hskip, hnone,
    (hdecodes _ _ hnone _).1.mp hnested, (hdecodes _ _ hnone _).2.mp ⟨_, hcrossed⟩, hbudget, ?_,
    hread, hrounds _ _ _ _ _ hread⟩
  rw [hends _ _ 14 hbudget, hrest]

end SchemaGraph.CustomOption

import SchemaGraph.Graph.Rooted
import SchemaGraph.Proofs.Option.Sealed

/-!
# The second reading of a descriptor set

The outline narrows the grammar of a descriptor set (`Outline.narrowing`): each of its
fields has the number and the way of writing of the field of that name, and its option
bytes are submessages that the first reading opens.

So the second reading accepts what the first one accepts, except where a declaration at
the last admitted depth has a field that the outline skips, a type or a number for
instance: there, and only there, it fails, and it has then run out of depth
(`EncodedOptions.decode_of_set`).  Messages 97 deep in each other are enough for that
(`EncodedOptions.decode_fails_nestedBytes`).
-/

namespace SchemaGraph

open Wire

namespace Outline

/-- What a message type of the outline is in a descriptor set. -/
def Kind.whole : Kind → Descriptor.Kind
  | .set => .fileSet
  | .file => .file
  | .message => .message
  | .declaration => .field
  | .enum => .enum
  | .oneof => .oneof

/-- Declarations may lie at any depth, files and sets only at the top. -/
def Kind.floor : Kind → Nat
  | .set => 2
  | .file => 1
  | _ => 0

theorem mem_of_lookup {α β : Type} [BEq α] [LawfulBEq α] {entries : List (α × β)} {a : α} {b : β}
    (h : entries.lookup a = some b) : (a, b) ∈ entries := by
  obtain ⟨before, after, rfl, -⟩ := List.lookup_eq_some_iff.mp h
  exact List.mem_append_right _ List.mem_cons_self

/-- Every field of the outline is one of a descriptor set with options left as bytes, under
the same number and name and written in the same way. -/
theorem known_fields (type : Kind) : ∀ entry ∈ type.fields, ∃ slot,
    Sealed.grammar.slot type.whole entry.1 = some (entry.2.1, slot) ∧
      entry.2.2.Narrows Kind.whole slot := by
  cases type with
  | set =>
      simp only [Kind.fields, List.forall_mem_cons]
      exact ⟨⟨_, rfl, .record Kind.file⟩, by simp⟩
  | file =>
      simp only [Kind.fields, List.forall_mem_cons]
      exact ⟨⟨_, rfl, .text⟩, ⟨_, rfl, .record Kind.message⟩,
        ⟨_, rfl, .record Kind.enum⟩, by simp⟩
  | message =>
      simp only [Kind.fields, List.forall_mem_cons]
      exact ⟨⟨_, rfl, .text⟩, ⟨_, rfl, .record Kind.declaration⟩,
        ⟨_, rfl, .record Kind.message⟩, ⟨_, rfl, .record Kind.enum⟩, ⟨_, rfl, .bytes⟩,
        ⟨_, rfl, .record Kind.oneof⟩, by simp⟩
  | declaration =>
      simp only [Kind.fields, List.forall_mem_cons]
      exact ⟨⟨_, rfl, .text⟩, ⟨_, rfl, .bytes⟩, by simp⟩
  | enum =>
      simp only [Kind.fields, List.forall_mem_cons]
      exact ⟨⟨_, rfl, .text⟩, ⟨_, rfl, .bytes⟩, by simp⟩
  | oneof =>
      simp only [Kind.fields, List.forall_mem_cons]
      exact ⟨⟨_, rfl, .text⟩, ⟨_, rfl, .bytes⟩, by simp⟩

theorem floor_le_of_record (type inner : Kind) :
    ∀ entry ∈ type.fields, entry.2.2 = .record inner → inner.floor ≤ type.floor - 1 := by
  cases type <;> cases inner <;> decide

/-- Only files list numbers back to back. -/
theorem not_packed_of_floor {type : Kind} (h : type.floor = 0) :
    ∀ entry ∈ type.whole.fields, entry.2.2 ≠ .varints := by
  cases type with
  | set => cases h
  | file => cases h
  | message => decide
  | declaration => decide
  | enum => decide
  | oneof => decide

/-- The outline of a descriptor set. -/
def narrowing : Narrowing Descriptor.Kind Kind where
  full := Descriptor.grammar
  part := grammar
  whole := Kind.whole
  floor := Kind.floor
  known := by
    intro type number name slot' h
    obtain ⟨slot, hsealed, hnarrows⟩ := known_fields _ _ (mem_of_lookup h)
    obtain ⟨field, slot₀, hfull, hnarrows₀⟩ := Sealed.narrowing.known hsealed
    exact ⟨field, slot₀, hfull, hnarrows.trans hnarrows₀⟩
  floor_le := fun h => floor_le_of_record _ _ _ (mem_of_lookup h) rfl
  packed := fun hfloor h => absurd rfl (not_packed_of_floor hfloor _ (mem_of_lookup h))

/-- The outline of a descriptor set with options left as bytes. -/
def ofSealed : Narrowing Descriptor.Kind Kind where
  full := Sealed.grammar
  part := grammar
  whole := Kind.whole
  floor := Kind.floor
  known := fun h => ⟨_, known_fields _ _ (mem_of_lookup h)⟩
  floor_le := narrowing.floor_le
  packed := by
    intro type number name hfloor h
    obtain ⟨⟨field, slot⟩, hfull, heq⟩ := Option.map_eq_some_iff.mp h
    cases slot with
    | varints => exact narrowing.packed hfloor hfull
    | varint => cases heq
    | fixed64 => cases heq
    | text => cases heq
    | bytes => cases heq
    | record t =>
        have hslot : (if Sealed.isOptions t then .bytes else .record t) = Slot.varints :=
          congrArg Prod.snd heq
        split at hslot <;> cases hslot

end Outline

/-! ## What the second reading accepts -/

section Reading

variable {bs : Bytes} {set : FileSet} {options : GraphOptions} {registry : Registry}

/-- Only options that cannot be decoded end the run that attaches them. -/
theorem Draft.exists_of_attach_error {encoded : List (ElementKey × List UInt8)} {g : Store}
    {e : OptionError} (h : attach registry encoded g = .error e) :
    ∃ entry ∈ encoded, CustomOption.decode registry entry.1.kind.extendee entry.2 = .error e := by
  induction encoded generalizing g with
  | nil => cases h
  | cons first rest ih =>
      obtain ⟨key, bytes⟩ := first
      have hrest {g : Store} (h : attach registry rest g = .error e) :=
        (ih h).imp fun entry => And.imp_left (List.mem_cons_of_mem (key, bytes))
      rw [attach] at h
      split at h
      · exact hrest h
      · split at h
        · next hfails =>
          cases h
          exact ⟨(key, bytes), List.mem_cons_self, hfails⟩
        · exact hrest h
        · split at h
          · next hlater =>
            cases h
            exact hrest hlater
          · cases h

/-- Once there is a store, no graph is malformed. -/
theorem RootedGraph.build_ne_malformed {g : Store} (e : DecodeError) :
    build set options g ≠ .error (.malformed e) := by
  intro h
  rw [build, finish] at h
  split at h
  · cases h
  · split at h <;> cases h

theorem RootedGraph.exists_of_malformed {encoded : EncodedOptions} {e : DecodeError}
    (hset : FileSet.decode bs = .ok set) (hencoded : EncodedOptions.decode bs = .ok encoded)
    (h : ofBytes bs options = .error (.malformed e)) :
    ∃ entry ∈ encoded.entries, ∃ fault, CustomOption.decode (Registry.ofSet set)
      entry.1.kind.extendee entry.2 = .error (.wire fault) ∧ e = { fault } := by
  rw [ofBytes, hset] at h
  dsimp only at h
  rw [hencoded] at h
  dsimp only at h
  split at h
  · next error hattach =>
    obtain ⟨entry, hentry, hfails⟩ := Draft.exists_of_attach_error hattach
    cases error with
    | wire fault =>
        cases h
        exact ⟨entry, hentry, fault, hfails, rfl⟩
    | option fault => cases h
  · exact absurd h (build_ne_malformed e)

end Reading

/-- Bytes that are a descriptor set are read a second time without fail, unless some
declaration at the last admitted depth has a field that the outline does not know.  The
graph is then malformed only if the options of a declaration are.  Otherwise the second
reading runs out of depth. -/
theorem EncodedOptions.decode_of_set {bs : Bytes} {set : FileSet} (h : FileSet.decode bs = .ok set) :
    ∃ fs, Wire.decode Descriptor.grammar .fileSet bs = .ok fs ∧
      (Outline.narrowing.Fits maxDepth .set fs → ∃ encoded, decode bs = .ok encoded ∧
        ∀ options e, RootedGraph.ofBytes bs options = .error (.malformed e) →
          ∃ entry ∈ encoded.entries, ∃ fault, CustomOption.decode (Registry.ofSet set)
            entry.1.kind.extendee entry.2 = .error (.wire fault) ∧ e = { fault }) ∧
      (¬ Outline.narrowing.Fits maxDepth .set fs → ∃ e, decode bs = .error e ∧ e.fault = .depth ∧
        ∀ options, RootedGraph.ofBytes bs options = .error (.malformed e)) := by
  obtain ⟨fs, hread, -⟩ := exists_of_map_ok h
  refine ⟨fs, hread, ?_⟩
  have hfloor : Outline.narrowing.floor .set ≤ maxDepth := by decide
  rcases Outline.narrowing.decode_of_full hfloor hread with
    ⟨hfits, kept, hkept, -⟩ | ⟨hnot, e, herror, hdepth⟩
  · refine ⟨fun _ => ?_, fun hnot => absurd hfits hnot⟩
    have hencoded : ∃ encoded, decode bs = .ok encoded := ⟨_, by rw [decode]; exact congrArg _ hkept⟩
    obtain ⟨encoded, hencoded⟩ := hencoded
    exact ⟨encoded, hencoded, fun options e => RootedGraph.exists_of_malformed h hencoded⟩
  · refine ⟨fun hfits => absurd hfits hnot, fun _ => ?_⟩
    have hencoded : decode bs = .error e := by rw [decode]; exact congrArg _ herror
    refine ⟨e, hencoded, hdepth, fun options => ?_⟩
    rw [RootedGraph.ofBytes, h]
    dsimp only
    rw [hencoded]

/-- A field that holds bytes, of which there are fewer than 2 ^ 14. -/
def lengthField (number : UInt8) (payload : Bytes) : Bytes :=
  (8 * number + 2) ::
    ((if payload.length < 0x80 then [UInt8.ofNat payload.length]
      else [UInt8.ofNat (payload.length % 0x80 + 0x80), UInt8.ofNat (payload.length / 0x80)]) ++
    payload)

/-- A message in further messages, each with the name `A`. -/
def nestedIn : (depth : Nat) → Bytes → Bytes
  | 0, m => m
  | depth + 1, m => nestedIn depth (lengthField 1 [0x41] ++ lengthField 3 m)

/-- A file `a` of package `a` with a message that lies in others and has a string field `x`. -/
def nestedBytes (depth : Nat) : Bytes :=
  lengthField 1 (lengthField 1 [0x61] ++ lengthField 2 [0x61] ++
    lengthField 4 (nestedIn depth (lengthField 1 [0x41] ++
      lengthField 2 (lengthField 1 [0x78] ++ [0x18, 1, 0x20, 1, 0x28, 9]))))

/-- In 96 messages the field lies above the last admitted depth. -/
theorem EncodedOptions.decode_of_set_nestedBytes :
    ∃ set fs encoded, FileSet.decode (nestedBytes 96) = .ok set ∧
      Wire.decode Descriptor.grammar .fileSet (nestedBytes 96) = .ok fs ∧
      Outline.narrowing.Fits maxDepth .set fs ∧ decode (nestedBytes 96) = .ok encoded := by
  have hset : (FileSet.decode (nestedBytes 96)).map (fun _ => ()) = .ok () := by decide +kernel
  have hencoded : (decode (nestedBytes 96)).map (fun _ => ()) = .ok () := by decide +kernel
  obtain ⟨set, hset, -⟩ := exists_of_map_ok hset
  obtain ⟨encoded, hencoded, -⟩ := exists_of_map_ok hencoded
  obtain ⟨fs, hread, -, hfails⟩ := decode_of_set hset
  refine ⟨set, fs, encoded, hset, hread, ?_, hencoded⟩
  by_contra hnot
  obtain ⟨e, herror, -⟩ := hfails hnot
  cases hencoded.symm.trans herror

/-- In 97 messages the field lies at the last admitted depth, and its number is accepted by
the first reading only. -/
theorem EncodedOptions.decode_fails_nestedBytes :
    ∃ set e, FileSet.decode (nestedBytes 97) = .ok set ∧ decode (nestedBytes 97) = .error e ∧
      e.fault = .depth ∧ RootedGraph.ofBytes (nestedBytes 97) {} = .error (.malformed e) := by
  have hset : (FileSet.decode (nestedBytes 97)).map (fun _ => ()) = .ok () := by decide +kernel
  have hfails : ((decode (nestedBytes 97)).map fun _ => ()).mapError (·.fault) = .error .depth := by
    decide +kernel
  obtain ⟨set, hset, -⟩ := exists_of_map_ok hset
  cases hencoded : decode (nestedBytes 97) with
  | ok encoded =>
      rw [hencoded] at hfails
      cases hfails
  | error e =>
      rw [hencoded] at hfails
      refine ⟨set, e, hset, rfl, Except.error.inj hfails, ?_⟩
      rw [RootedGraph.ofBytes, hset]
      dsimp only
      rw [hencoded]

end SchemaGraph

import SchemaGraph.Proofs.Schema.Attach
import SchemaGraph.Proofs.WithoutOptions

/-!
# Attaching options in every order

Encoded options come from a table, whose entries have different identities and no order
of their own.  They are attached one after the other, and the first one that cannot be
decoded ends the run.

* `Draft.isOk_attach_iff` says when there is a result: if every entry for a vertex can
  be decoded, which no order changes;
* `Draft.attach_perm` says that the result is the same in every order;
* `Draft.Attached` says what the result is, with the options messages by name
  (`optionsMessages`), and `Draft.attach_filter` that entries for no vertex are passed over
  unread.

`attach_every_order` states this of the graph of a set at any point of its construction
(`FileSet.Builds`).  Of several entries that cannot be decoded the order decides which
one is reported.
-/

namespace SchemaGraph

/-- The graph of a set at some point of its construction: wrapper messages may have been
flattened and options of vertices been set, as often and in whatever order. -/
inductive FileSet.Builds (set : FileSet) : Store → Prop where
  | drafted : set.Builds (Draft.ofSet set).store
  | options {g : Store} (h : set.Builds g) (id : VertexId) (options : List CustomOption) :
      set.Builds (g.update id fun e => e.withOptions options)
  | flattened {g : Store} (h : set.Builds g) : set.Builds g.flatten

theorem FileSet.Builds.valid {set : FileSet} {g : Store} (h : set.Builds g) : g.Valid := by
  induction h with
  | drafted => exact (Store.traced_ofSet set).valid
  | options _ id options ih => exact ih.update fun e => e.key_withOptions options
  | @flattened g _ ih => exact (ih.applied g.planFlattening).valid

/-- The messages that options are fields of, by the kind of what they are set on. -/
def optionsMessages : List (ElementKind × String) :=
  [(.message, "google.protobuf.MessageOptions"), (.field, "google.protobuf.FieldOptions"),
    (.oneOf, "google.protobuf.OneofOptions"), (.enum, "google.protobuf.EnumOptions")]

theorem mem_optionsMessages_iff {kind : ElementKind} {extendee : String} :
    (kind, extendee) ∈ optionsMessages ↔ extendee = kind.extendee := by
  cases kind <;> simp [optionsMessages, ElementKind.extendee]

namespace Draft

/-- The bytes of an entry, read as the options message for its kind, are these options. -/
def Reads (registry : Registry) (entry : ElementKey × List UInt8) (options : List CustomOption) :
    Prop :=
  ∃ extendee, (entry.1.kind, extendee) ∈ optionsMessages ∧
    CustomOption.decode registry extendee entry.2 = .ok options

/-- What attaching entries with different identities does to a graph. -/
structure Attached (registry : Registry) (encoded : List (ElementKey × List UInt8))
    (g g' : Store) (n : Nat) : Prop where
  /-- A vertex carries the options that the entry for it sets, if it sets any. -/
  received : ∀ id e bytes options, g.element? id = some e → (e.key, bytes) ∈ encoded →
    Reads registry (e.key, bytes) options → options ≠ [] →
    g'.element? id = some (e.withOptions options)
  /-- Every other vertex is as it was. -/
  kept : ∀ id e, g.element? id = some e →
    (∀ bytes options, (e.key, bytes) ∈ encoded → Reads registry (e.key, bytes) options →
      options = []) →
    g'.element? id = some e
  /-- Nothing but options changes. -/
  rest : g'.withoutOptions = g.withoutOptions
  /-- Vertices that receive options are counted. -/
  count : ∃ entries : List (ElementKey × List UInt8), entries.Sublist encoded ∧
    (∀ entry, entry ∈ entries ↔ entry ∈ encoded ∧ entry.1 ∈ g.keys ∧
      ∃ options, Reads registry entry options ∧ options ≠ []) ∧
    n = entries.length

variable {registry : Registry} {encoded encoded' : List (ElementKey × List UInt8)}
variable {g g' : Store} {n : Nat} {entry : ElementKey × List UInt8} {options : List CustomOption}

theorem reads_iff : Reads registry entry options ↔
    CustomOption.decode registry entry.1.kind.extendee entry.2 = .ok options := by
  simp only [Reads, mem_optionsMessages_iff, exists_eq_left]

/-- An entry sets options of a vertex if it is for one and has any. -/
theorem sets_iff (h : g.Valid) : sets registry g entry = true ↔
    entry.1 ∈ g.keys ∧ ∃ options, Reads registry entry options ∧ options ≠ [] := by
  have hkey : (g.find? entry.1).isSome = true ↔ entry.1 ∈ g.keys := by
    rw [Option.isSome_iff_ne_none, ne_eq, h.find?_eq_none_iff, not_not]
  rw [sets, Bool.and_eq_true, hkey]
  refine and_congr_right fun _ => ?_
  -- An entry is read in one way only, so it is enough to look at what comes of it.
  simp only [reads_iff]
  cases CustomOption.decode registry entry.1.kind.extendee entry.2 with
  | error => simp [Except.toOption]
  | ok options => simp [Except.toOption]

/-- What attaching does if every entry for a vertex can be read. -/
theorem attach_eq_of_reads (h : g.Valid)
    (hreads : ∀ entry ∈ encoded, entry.1 ∈ g.keys → ∃ options, Reads registry entry options) :
    attach registry encoded g =
      .ok (g.withLater (optionsSet registry encoded), encoded.countP (sets registry g)) := by
  simp only [reads_iff] at hreads
  exact attach_eq h hreads

/-- Attaching succeeds if and only if every entry for a vertex can be decoded. -/
theorem isOk_attach_iff (h : g.Valid) :
    (∃ result, attach registry encoded g = .ok result) ↔
      ∀ entry ∈ encoded, entry.1 ∈ g.keys → ∃ options, Reads registry entry options := by
  refine ⟨fun ⟨_, hattach⟩ entry hmem hkey => ?_, fun hreads => ⟨_, attach_eq_of_reads h hreads⟩⟩
  simp only [reads_iff]
  exact exists_decode_of_attach hattach h hmem hkey

/-- Attaching fails in every order, or its result is the same in every order. -/
theorem attach_perm (h : g.Valid) (hnodup : (encoded.map Prod.fst).Nodup)
    (hperm : encoded'.Perm encoded) :
    ((∃ e, attach registry encoded' g = .error e) ∧ ∃ e, attach registry encoded g = .error e) ∨
      ∃ result, attach registry encoded' g = .ok result ∧ attach registry encoded g = .ok result := by
  have hfails {encoded : List (ElementKey × List UInt8)}
      (hnot : ¬ ∃ result, attach registry encoded g = .ok result) :
      ∃ e, attach registry encoded g = .error e := by
    cases hattach : attach registry encoded g with
    | error e => exact ⟨e, rfl⟩
    | ok result => exact absurd ⟨result, hattach⟩ hnot
  -- Which entries there are does not depend on their order.
  have hiff : (∃ result, attach registry encoded' g = .ok result) ↔
      ∃ result, attach registry encoded g = .ok result := by
    rw [isOk_attach_iff h, isOk_attach_iff h]
    exact forall_congr' fun entry => imp_congr_left hperm.mem_iff
  by_cases hok : ∃ result, attach registry encoded g = .ok result
  · have hreads := (isOk_attach_iff h).mp hok
    have hresult := attach_eq_of_reads h ((isOk_attach_iff h).mp (hiff.mpr hok))
    rw [optionsSet_perm hperm hnodup, hperm.countP_eq] at hresult
    exact Or.inr ⟨_, hresult, attach_eq_of_reads h hreads⟩
  · exact Or.inl ⟨hfails (mt hiff.mp hok), hfails hok⟩

/-- Entries for no vertex make no difference, whether or not they can be decoded. -/
theorem attach_filter (registry : Registry) (encoded : List (ElementKey × List UInt8))
    (g : Store) :
    attach registry (encoded.filter fun entry => (g.find? entry.1).isSome) g =
      attach registry encoded g := by
  induction encoded generalizing g with
  | nil => rfl
  | cons first rest ih =>
      obtain ⟨key, bytes⟩ := first
      rw [attach]
      cases hfind : g.find? key with
      | none =>
          rw [List.filter_cons_of_neg (by simp [hfind])]
          exact ih g
      | some id =>
          rw [List.filter_cons_of_pos (by simp [hfind]), attach, hfind]
          dsimp only
          cases CustomOption.decode registry key.kind.extendee bytes with
          | error e => rfl
          | ok options =>
              cases options with
              | nil => exact ih g
              | cons first later =>
                  -- No step changes which identities there are.
                  have hlater := ih (g.update id fun e => e.withOptions (first :: later))
                  dsimp only
                  rw [← hlater]
                  rfl

/-- The result of attaching entries with different identities. -/
theorem attached_of_attach (h : g.Valid) (hnodup : (encoded.map Prod.fst).Nodup)
    (hattach : attach registry encoded g = .ok (g', n)) : Attached registry encoded g g' n := by
  obtain ⟨-, helement⟩ := attach_element? hattach h
  have hrest := withoutOptions_attach hattach
  have hreads := (isOk_attach_iff h).mp ⟨_, hattach⟩
  rw [attach_eq_of_reads h hreads] at hattach
  obtain ⟨-, hcount⟩ := Prod.mk.inj (Except.ok.inj hattach)
  refine ⟨?received, ?kept, hrest, ?count⟩
  case received =>
    intro id e bytes options he hmem hread hne
    rw [helement, he, Option.map_some, optionsSet_of_mem hnodup hmem, reads_iff.mp hread]
    exact congrArg (fun options => some (e.withOptions options)) (if_neg hne)
  case kept =>
    intro id e he hnone
    have hset : optionsSet registry encoded e.key = [] := by
      by_cases hkey : e.key ∈ encoded.map Prod.fst
      · obtain ⟨⟨_, bytes⟩, hmem, rfl⟩ := List.mem_map.mp hkey
        rw [optionsSet_of_mem hnodup hmem]
        cases hdecode : CustomOption.decode registry _ bytes with
        | error fault => rfl
        | ok options => exact hnone bytes options hmem (reads_iff.mpr hdecode)
      · exact optionsSet_of_notMem hkey
    rw [helement, he, Option.map_some, hset, overriddenBy_nil]
    rfl
  case count =>
    refine ⟨encoded.filter (sets registry g), List.filter_sublist, fun entry => ?_, ?_⟩
    · rw [List.mem_filter, sets_iff h]
    · rw [← hcount, List.countP_eq_length_filter]

end Draft

/-- Options are attached to the graph of a set in no order or in every order, with one
result, in which they are the options of their vertices and nothing else has changed.  They
are if every entry for a vertex can be read as the options message for its kind. -/
theorem attach_every_order {set : FileSet} {registry : Registry} {g : Store}
    {encoded : List (ElementKey × List UInt8)} (h : set.Builds g)
    (hnodup : (encoded.map Prod.fst).Nodup) :
    (∀ encoded' : List (ElementKey × List UInt8), encoded'.Perm encoded →
      ((∃ e, Draft.attach registry encoded' g = .error e) ∧
          ∃ e, Draft.attach registry encoded g = .error e) ∨
        ∃ result, Draft.attach registry encoded' g = .ok result ∧
          Draft.attach registry encoded g = .ok result) ∧
    ((∃ result, Draft.attach registry encoded g = .ok result) ↔
      ∀ entry ∈ encoded, entry.1 ∈ g.keys → ∃ options, Draft.Reads registry entry options) ∧
    (∀ g' n, Draft.attach registry encoded g = .ok (g', n) →
      Draft.Attached registry encoded g g' n) ∧
    Draft.attach registry (encoded.filter fun entry => (g.find? entry.1).isSome) g =
      Draft.attach registry encoded g :=
  ⟨fun _ hperm => Draft.attach_perm h.valid hnodup hperm,
    Draft.isOk_attach_iff h.valid,
    fun _ _ hattach => Draft.attached_of_attach h.valid hnodup hattach,
    Draft.attach_filter registry encoded g⟩

/-- A message with a field in a group, and an enum, with an extension of the options of each
under one number. -/
def hiddenSet : FileSet where
  files :=
    [{ name := "hidden.proto"
       package := "a"
       messages :=
         [{ name := "A"
            fields := [{ name := "x", number := 1, type := .string, oneofIndex := some 0 }]
            nested := []
            enums := []
            extensions := []
            oneofs := ["o"]
            isMapEntry := false }]
       enums := [{ name := "E", values := [⟨"NONE", 0⟩] }]
       extensions :=
         [{ name := "whole", number := 1000, type := .bool
            extendee := ".google.protobuf.MessageOptions" },
          { name := "part", number := 1000, type := .uint32
            extendee := ".google.protobuf.FieldOptions" },
          { name := "choice", number := 1000, type := .sint32
            extendee := ".google.protobuf.OneofOptions" },
          { name := "range", number := 1000, type := .int64
            extendee := ".google.protobuf.EnumOptions" }] }]

/-- Options of the field, of the group, of the enum and of the message, and bytes that are
cut short for a group that is not there. -/
def hiddenEntries : List (ElementKey × List UInt8) :=
  [(⟨.field, "a.A.x"⟩, [192, 62, 1]), (⟨.oneOf, "a.A.p"⟩, [192]),
   (⟨.oneOf, "a.A.o"⟩, [192, 62, 3]), (⟨.enum, "a.E"⟩, [192, 62, 4]),
   (.message "a.A", [192, 62, 1])]

/-- Each vertex receives the options of its own kind, in both orders. -/
theorem attach_every_order_hiddenSet :
    ∃ g' n, hiddenSet.Builds (Draft.ofSet hiddenSet).store ∧
      (hiddenEntries.map Prod.fst).Nodup ∧ hiddenEntries.reverse.Perm hiddenEntries ∧
      Draft.attach (Registry.ofSet hiddenSet) hiddenEntries.reverse (Draft.ofSet hiddenSet).store =
        .ok (g', n) ∧
      Draft.attach (Registry.ofSet hiddenSet) hiddenEntries (Draft.ofSet hiddenSet).store =
        .ok (g', n) ∧
      Draft.Attached (Registry.ofSet hiddenSet) hiddenEntries (Draft.ofSet hiddenSet).store g' n ∧
      g'.elements.map (fun entry => (entry.2.key, entry.2.options)) =
        [(⟨.enum, "a.E"⟩, [⟨"a.range", 1000, .int 4⟩]),
         (.message "a.A", [⟨"a.whole", 1000, .bool true⟩]),
         (⟨.field, "a.A.x"⟩, [⟨"a.part", 1000, .uint 1⟩]),
         (⟨.oneOf, "a.A.o"⟩, [⟨"a.choice", 1000, .int (-2)⟩])] ∧ n = 4 := by
  have hbuilds : hiddenSet.Builds (Draft.ofSet hiddenSet).store := .drafted
  have hnodup : (hiddenEntries.map Prod.fst).Nodup := by decide +kernel
  have hperm : hiddenEntries.reverse.Perm hiddenEntries := hiddenEntries.reverse_perm
  obtain ⟨horder, -, hattached, -⟩ :=
    @attach_every_order hiddenSet (Registry.ofSet hiddenSet) _ _ hbuilds hnodup
  have hresult : (Draft.attach (Registry.ofSet hiddenSet) hiddenEntries
      (Draft.ofSet hiddenSet).store).map (fun result =>
        (result.1.elements.map (fun entry => (entry.2.key, entry.2.options)), result.2)) =
      .ok ([(⟨.enum, "a.E"⟩, [⟨"a.range", 1000, .int 4⟩]),
        (.message "a.A", [⟨"a.whole", 1000, .bool true⟩]),
        (⟨.field, "a.A.x"⟩, [⟨"a.part", 1000, .uint 1⟩]),
        (⟨.oneOf, "a.A.o"⟩, [⟨"a.choice", 1000, .int (-2)⟩])], 4) := by decide +kernel
  obtain ⟨⟨g', n⟩, hattach, hsame⟩ := exists_of_map_ok hresult
  obtain ⟨helements, hcount⟩ := Prod.mk.inj hsame
  refine ⟨g', n, hbuilds, hnodup, hperm, ?_, hattach, hattached g' n hattach, helements, hcount⟩
  rcases horder _ hperm with ⟨-, e, herror⟩ | ⟨result, hreversed, hok⟩
  · cases hattach.symm.trans herror
  · rw [hreversed, ← hok, hattach]

end SchemaGraph

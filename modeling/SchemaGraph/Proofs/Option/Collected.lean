import SchemaGraph.Proofs.Option.Declared
import SchemaGraph.Proofs.Option.Outline
import SchemaGraph.Proofs.Schema.Attach
import SchemaGraph.Proofs.Schema.Present
import SchemaGraph.Proofs.WithoutOptions

/-!
# Options and the declarations that set them

The entries that the second reading collects are just the declarations of the set that
give options which are not empty (`Outline.mem_entries_iff`).  So each key of the encoded
options is the identity of a vertex or of a oneof group without members, and the options
of a message, a field or an enum are there under the identity of its vertex and reach it
(`EncodedOptions.collected`).

Nothing is asked of the names of a set.  Of declarations with one identity the last one
with options counts, and the vertex of the identity gets these options.
-/

namespace SchemaGraph

open Wire

namespace Outline

open Sealed (nameOf optionsOf packageOf parts messageParts MessageIn Declares)

variable {set os m o file : Fields} {scope : String} {kind : ElementKind} {entry : Entry}

/-! ## Entries of one declaration -/

theorem mem_entryOf_iff {number : Nat} {fs : Fields} :
    entry ∈ entryOf kind scope number fs ↔
      entry.2 ≠ [] ∧ entry.1 = ⟨kind, qualify scope ((fs.text? 1).getD "")⟩ ∧
        fs.bytes? number = some entry.2 := by
  obtain ⟨key, payload⟩ := entry
  rw [entryOf]
  split
  · next hnone => simp [hnone]
  · next hempty =>
    rw [hempty]
    constructor
    · exact fun h => absurd h List.not_mem_nil
    · rintro ⟨hne, -, heq⟩
      exact absurd (Option.some.inj heq).symm hne
  · next payload' hne hsome =>
    rw [hsome, List.mem_singleton, Prod.mk.injEq, Option.some.injEq]
    constructor
    · rintro ⟨rfl, rfl⟩
      exact ⟨hne, rfl, rfl⟩
    · rintro ⟨-, hkey, rfl⟩
      exact ⟨hkey, rfl⟩

/-- An entry for a declaration that gives options which are not empty. -/
def Sets (kind : ElementKind) (scope : String) (type : Descriptor.Kind) (fs : Fields)
    (entry : Entry) : Prop :=
  entry.2 ≠ [] ∧ entry.1 = ⟨kind, qualify scope (nameOf type fs)⟩ ∧
    optionsOf type fs = some entry.2

/-- The outline keeps the name and the options of a declaration. -/
theorem mem_entryOf_iff_sets {type : Kind} {name field : String} {fs kept : Fields}
    (h : ofSealed.Keeps type fs kept) (number : Nat) (hname : type.whole.numberOf "name" = 1)
    (hoptions : type.whole.numberOf "options" = number)
    (htext : grammar.slot type 1 = some (name, .text))
    (hbytes : grammar.slot type number = some (field, .bytes))
    (hsealed : Sealed.grammar.slot type.whole number = some (field, .bytes)) :
    entry ∈ entryOf kind scope number kept ↔ Sets kind scope type.whole fs entry := by
  rw [mem_entryOf_iff, Sets, nameOf, optionsOf, hname, hoptions, h.text? 1 htext,
    h.bytes? number hbytes hsealed]

theorem mem_flatMap_entryOf_iff {type : Kind} {name field : String} {ps kept : List Fields}
    (h : List.Forall₂ (ofSealed.Keeps type) ps kept) (number : Nat)
    (hname : type.whole.numberOf "name" = 1) (hoptions : type.whole.numberOf "options" = number)
    (htext : grammar.slot type 1 = some (name, .text))
    (hbytes : grammar.slot type number = some (field, .bytes))
    (hsealed : Sealed.grammar.slot type.whole number = some (field, .bytes)) :
    entry ∈ kept.flatMap (entryOf kind scope number) ↔
      ∃ p ∈ ps, Sets kind scope type.whole p entry := by
  rw [List.mem_flatMap]
  exact (exists_mem_iff_of_forall₂ h fun p kept hp =>
    (mem_entryOf_iff_sets hp number hname hoptions htext hbytes hsealed).symm).symm

/-! ## Entries of messages and files -/

theorem nestedEntries_eq (scope : String) (number : Nat) (fs : Fields) :
    nestedEntries scope number fs =
      (fs.records number).flatMap fun sub => messageEntries scope (.record sub) := by
  induction fs with
  | nil => rfl
  | cons field rest ih =>
      obtain ⟨n, value⟩ := field
      rw [nestedEntries]
      split
      · next hn =>
        subst hn
        cases value with
        | record sub => rw [Fields.records_cons_record, List.flatMap_cons, ih]
        | number k => rw [messageEntries, List.nil_append, ih]; rfl
        | text s => rw [messageEntries, List.nil_append, ih]; rfl
        | bytes b => rw [messageEntries, List.nil_append, ih]; rfl
      · next hn => rw [ih, Fields.records_cons_of_ne hn]

theorem mem_messageParts_iff {P : ElementKind → String → Descriptor.Kind → Prop} :
    (∃ kind field type, (kind, field, type) ∈ messageParts ∧ P kind field type) ↔
      P .field "field" .field ∨ P .oneOf "oneof_decl" .oneof ∨ P .enum "enum_type" .enum := by
  simp only [messageParts, List.mem_cons, List.not_mem_nil, or_false, Prod.mk.injEq]
  constructor
  · rintro ⟨kind, field, type, ⟨rfl, rfl, rfl⟩ | ⟨rfl, rfl, rfl⟩ | ⟨rfl, rfl, rfl⟩, h⟩
    · exact Or.inl h
    · exact Or.inr (Or.inl h)
    · exact Or.inr (Or.inr h)
  · rintro (h | h | h)
    · exact ⟨_, _, _, Or.inl ⟨rfl, rfl, rfl⟩, h⟩
    · exact ⟨_, _, _, Or.inr (Or.inl ⟨rfl, rfl, rfl⟩), h⟩
    · exact ⟨_, _, _, Or.inr (Or.inr ⟨rfl, rfl, rfl⟩), h⟩

/-- The entries of a message: its own, those of its parts and those of the messages
inside it. -/
theorem mem_messageEntries_iff (h : ofSealed.Keeps .message m o) :
    entry ∈ messageEntries scope (.record o) ↔
      Sets .message scope .message m entry ∨
      (∃ kind field type, (kind, field, type) ∈ messageParts ∧ ∃ p ∈ parts .message field m,
        Sets kind (qualify scope (nameOf .message m)) type p entry) ∨
      ∃ n ∈ o.records 3, entry ∈ messageEntries (qualify scope (nameOf .message m)) (.record n) := by
  have hname : (Fields.text? 1 o).getD "" = nameOf .message m :=
    congrArg (Option.getD · "") (h.text? 1 rfl)
  rw [messageEntries, hname, nestedEntries_eq, mem_messageParts_iff, List.mem_append,
    List.mem_append, List.mem_append, List.mem_append,
    mem_entryOf_iff_sets h 7 rfl rfl rfl rfl rfl,
    mem_flatMap_entryOf_iff (h.records 2 rfl) 8 rfl rfl rfl rfl rfl,
    mem_flatMap_entryOf_iff (h.records 8 rfl) 2 rfl rfl rfl rfl rfl,
    mem_flatMap_entryOf_iff (h.records 4 rfl) 3 rfl rfl rfl rfl rfl, List.mem_flatMap]
  simp only [or_assoc]
  rfl

/-- The entries of a file: those of its enums and of its messages. -/
theorem mem_fileEntries_iff (h : ofSealed.Keeps .file file o) :
    entry ∈ fileEntries o ↔
      (∃ e ∈ parts .file "enum_type" file, Sets .enum (packageOf file) .enum e entry) ∨
      ∃ n ∈ o.records 4, entry ∈ messageEntries (packageOf file) (.record n) := by
  have hpackage : (o.text? 2).getD "" = packageOf file :=
    congrArg (Option.getD · "") (h.text? 2 rfl)
  rw [fileEntries, hpackage, nestedEntries_eq, List.mem_append,
    mem_flatMap_entryOf_iff (h.records 5 rfl) 3 rfl rfl rfl rfl rfl, List.mem_flatMap]
  rfl

/-! ## Entries of a set -/

theorem sizeOf_lt_of_mem_records {number : Nat} {sub fs : Fields} (h : sub ∈ fs.records number) :
    sizeOf sub < sizeOf fs := by
  have hlt := List.sizeOf_lt_of_mem (Fields.mem_records_iff.mp h)
  simp only [Prod.mk.sizeOf_spec, Value.record.sizeOf_spec] at hlt
  omega

/-- What is collected from a message of the set is declared. -/
theorem declares_of_mem_messageEntries (hm : MessageIn set scope m)
    (h : ofSealed.Keeps .message m o) (hentry : entry ∈ messageEntries scope (.record o)) :
    entry.2 ≠ [] ∧ Declares set entry.1 (some entry.2) := by
  induction hsize : sizeOf o using Nat.strongRecOn generalizing o m scope with
  | ind size ih =>
    rcases (mem_messageEntries_iff h).mp hentry with
      ⟨hne, hkey, hoptions⟩ | ⟨kind, field, type, hpart, p, hp, hne, hkey, hoptions⟩ | ⟨n, hn, hentry⟩
    · rw [hkey, ← hoptions]
      exact ⟨hne, .message hm⟩
    · rw [hkey, ← hoptions]
      exact ⟨hne, .part hm hpart hp⟩
    · obtain ⟨n', hn', hkeeps⟩ := exists_of_forall₂_right (h.records 3 rfl) hn
      exact ih (sizeOf n) (hsize ▸ sizeOf_lt_of_mem_records hn) (.inside hm hn') hkeeps hentry rfl

/-- Everything is collected from each message of the set. -/
theorem exists_of_messageIn (hset : ofSealed.Keeps .set set os) (hm : MessageIn set scope m) :
    ∃ o, ofSealed.Keeps .message m o ∧ ∀ entry ∈ messageEntries scope (.record o),
      entry ∈ (os.records 1).flatMap fileEntries := by
  induction hm with
  | ofFile hfile hm =>
      obtain ⟨file, hmem, hfile⟩ := exists_of_forall₂_left (hset.records 1 rfl) hfile
      obtain ⟨o, ho, hm⟩ := exists_of_forall₂_left (hfile.records 4 rfl) hm
      refine ⟨o, hm, fun entry hentry => List.mem_flatMap.mpr ⟨file, hmem, ?_⟩⟩
      exact (mem_fileEntries_iff hfile).mpr (Or.inr ⟨o, ho, hentry⟩)
  | inside _ hn ih =>
      obtain ⟨o, hm, hentries⟩ := ih
      obtain ⟨n, hmem, hn⟩ := exists_of_forall₂_left (hm.records 3 rfl) hn
      refine ⟨n, hn, fun entry hentry => hentries entry ?_⟩
      exact (mem_messageEntries_iff hm).mpr (Or.inr (Or.inr ⟨n, hmem, hentry⟩))

/-- The entries are the declarations that give options which are not empty. -/
theorem mem_entries_iff (hset : ofSealed.Keeps .set set os) :
    entry ∈ (os.records 1).flatMap fileEntries ↔
      entry.2 ≠ [] ∧ Declares set entry.1 (some entry.2) := by
  have hfiles := hset.records 1 rfl
  constructor
  · intro hentry
    obtain ⟨o, ho, hentry⟩ := List.mem_flatMap.mp hentry
    obtain ⟨file, hfile, hkeeps⟩ := exists_of_forall₂_right hfiles ho
    rcases (mem_fileEntries_iff hkeeps).mp hentry with ⟨e, he, hne, hkey, hoptions⟩ | ⟨n, hn, hentry⟩
    · rw [hkey, ← hoptions]
      exact ⟨hne, .enum hfile he⟩
    · obtain ⟨m, hm, hmkeeps⟩ := exists_of_forall₂_right (hkeeps.records 4 rfl) hn
      exact declares_of_mem_messageEntries (.ofFile hfile hm) hmkeeps hentry
  · obtain ⟨key, payload⟩ := entry
    rintro ⟨hne, hdeclares⟩
    dsimp only at hne hdeclares
    generalize hoptions : some payload = options at hdeclares
    cases hdeclares with
    | message hm =>
        obtain ⟨o, hkeeps, hentries⟩ := exists_of_messageIn hset hm
        exact hentries _ ((mem_messageEntries_iff hkeeps).mpr
          (Or.inl ⟨hne, rfl, hoptions.symm⟩))
    | part hm hpart hp =>
        obtain ⟨o, hkeeps, hentries⟩ := exists_of_messageIn hset hm
        exact hentries _ ((mem_messageEntries_iff hkeeps).mpr
          (Or.inr (Or.inl ⟨_, _, _, hpart, _, hp, hne, rfl, hoptions.symm⟩)))
    | enum hfile he =>
        obtain ⟨o, ho, hkeeps⟩ := exists_of_forall₂_left hfiles hfile
        exact List.mem_flatMap.mpr ⟨o, ho, (mem_fileEntries_iff hkeeps).mpr
          (Or.inl ⟨_, he, hne, rfl, hoptions.symm⟩)⟩

end Outline

/-! ## Entries by identity -/

namespace EncodedOptions

variable {entries : List Outline.Entry} {o : EncodedOptions} {key : ElementKey} {payload : Bytes}

theorem get?_insert (o : EncodedOptions) (entry : Outline.Entry) (key : ElementKey) :
    (o.insert entry).get? key = if key = entry.1 then some entry.2 else o.get? key :=
  lookup_assign entry.1 key entry.2 o.entries

theorem nodup_keys_ofEntries (entries : List Outline.Entry) :
    ((ofEntries entries).entries.map Prod.fst).Nodup :=
  List.foldlRecOn (motive := fun o => (o.entries.map Prod.fst).Nodup) entries insert List.nodup_nil
    fun _ h entry _ => nodup_keys_assign entry.1 entry.2 h

/-- What is there for an identity was an entry for it. -/
theorem mem_of_get?_ofEntries (h : (ofEntries entries).get? key = some payload) :
    (key, payload) ∈ entries := by
  refine List.foldlRecOn (motive := fun o => o.get? key = some payload → (key, payload) ∈ entries)
    entries insert (fun hnone => by cases hnone) (fun o ih entry hentry hget => ?_) h
  rw [get?_insert] at hget
  split at hget
  · next hkey =>
    obtain rfl := Option.some.inj hget
    rw [hkey]
    exact hentry
  · exact ih hget

/-- Something is there for the identity of each entry. -/
theorem exists_get?_of_mem (h : (key, payload) ∈ entries) :
    ∃ last, (ofEntries entries).get? key = some last := by
  have hfold (entries : List Outline.Entry) (o : EncodedOptions)
      (h : (∃ first, o.get? key = some first) ∨ ∃ payload, (key, payload) ∈ entries) :
      ∃ last, (entries.foldl insert o).get? key = some last := by
    induction entries generalizing o with
    | nil => exact h.resolve_right fun ⟨payload, hmem⟩ => absurd hmem List.not_mem_nil
    | cons entry rest ih =>
        refine ih (o.insert entry) ?_
        rw [get?_insert]
        split
        · exact Or.inl ⟨_, rfl⟩
        · next hne =>
          refine h.imp_right fun ⟨payload, hmem⟩ => ⟨payload, ?_⟩
          refine (List.mem_cons.mp hmem).resolve_left fun heq => hne ?_
          exact congrArg Prod.fst heq
  exact hfold entries {} (Or.inr ⟨payload, h⟩)

end EncodedOptions

/-! ## Options and vertices -/

/-- A set gives its vertices no options by itself. -/
theorem options_ofSet {set : FileSet} {id : VertexId} {e : Element}
    (h : (Draft.ofSet set).store.element? id = some e) : e.options = [] := by
  have hbare := (Draft.ofSet set).store.withoutOptions_element? id
  rw [Draft.withoutOptions_ofSet, h, Option.map_some, Option.some.injEq] at hbare
  rw [hbare]
  rfl

/-- A declared identity has a vertex, unless it is that of groups without members. -/
theorem FileSet.Declares.vertex_or_bare {set : FileSet} {key : ElementKey}
    (h : set.Declares key) : key ∈ (Draft.ofSet set).store.keys ∨ key.kind = .oneOf ∧
      ∀ m ∈ set.messageSites, ∀ g ∈ m.declaredGroups, g.key = key → g.members = [] := by
  by_cases hthere : ∃ s ∈ set.sites, s.key = key
  · exact Or.inl (mem_keys_ofSet_iff.mpr hthere)
  obtain ⟨m, hm, g, hg, rfl⟩ := h.resolve_left hthere
  refine Or.inr ⟨rfl, fun m' hm' g' hg' hkey => ?_⟩
  -- A group with a member is one of the declarations that get a vertex.
  rw [GroupSite.members, MessageSite.message_of_mem_declaredGroups hg', GroupSite.namesOf,
    List.map_eq_nil_iff, List.filter_eq_nil_iff]
  intro f hf hin
  have hgroup : g' ∈ m'.groups := MessageSite.mem_groups_iff.mpr ⟨hg', f, hf, hin⟩
  exact hthere ⟨.group g', mem_sites_iff.mpr (Or.inr ⟨m', hm',
    MessageSite.group_mem_sites.mpr hgroup⟩), hkey⟩

namespace EncodedOptions

variable {bs : Bytes} {set : FileSet} {encoded : EncodedOptions} {fs : Fields}
variable {key : ElementKey} {payload : Bytes}

/-- The second reading of a set collects what its declarations say. -/
theorem exists_entries_of_decode (hset : Wire.decode Sealed.grammar .fileSet bs = .ok fs)
    (hencoded : decode bs = .ok encoded) : ∃ entries, encoded = ofEntries entries ∧
      ∀ key payload, (key, payload) ∈ entries ↔
        payload ≠ [] ∧ Sealed.Declares fs key (some payload) := by
  obtain ⟨os, hread, rfl⟩ := exists_of_map_ok hencoded
  have hfloor : Outline.ofSealed.floor .set ≤ maxDepth := by decide
  rcases Outline.ofSealed.decode_of_full hfloor hset with ⟨-, kept, hkept, hkeeps⟩ | ⟨-, e, herror, -⟩
  · obtain rfl := Except.ok.inj (hread.symm.trans hkept)
    exact ⟨_, rfl, fun key payload => Outline.mem_entries_iff hkeeps⟩
  · cases hread.symm.trans herror

/-- Options that are attached are those of the entry, decoded. -/
theorem exists_element_of_attach {registry : Registry} {g : Store} {n : Nat}
    (hnodup : (encoded.entries.map Prod.fst).Nodup) (hget : encoded.get? key = some payload)
    (hattach : Draft.attach registry encoded.entries (Draft.ofSet set).store = .ok (g, n))
    (hthere : key ∈ (Draft.ofSet set).store.keys) :
    ∃ id e, (Draft.ofSet set).store.find? key = some id ∧ g.find? key = some id ∧
      g.element? id = some e ∧ e.key = key ∧
      CustomOption.decode registry key.kind.extendee payload = .ok e.options := by
  have hvalid := (Store.traced_ofSet set).valid
  have hmem : (key, payload) ∈ encoded.entries := Outline.mem_of_lookup hget
  obtain ⟨options, hdecode⟩ := Draft.exists_decode_of_attach hattach hvalid hmem hthere
  obtain ⟨hfind, helement⟩ := Draft.attach_element? hattach hvalid
  obtain ⟨id, e, hentry, rfl⟩ := Store.mem_keys_iff.mp hthere
  have hid := hvalid.find?_eq_some_iff.mpr ⟨e, hentry, rfl⟩
  have he := hvalid.element?_eq_some_iff.mpr hentry
  refine ⟨id, _, hid, (hfind _).trans hid, (helement id).trans (congrArg _ he),
    e.key_withOptions _, ?_⟩
  show _ = Except.ok (overriddenBy e.options (optionsSet registry encoded.entries e.key))
  rw [options_ofSet he, nil_overriddenBy, optionsSet_of_mem hnodup hmem, hdecode]
  rfl

/-- What is collected from a set, what the set declares, and the vertices of its graph. -/
structure Collects (encoded : EncodedOptions) (set : FileSet) (fs : Fields) : Prop where
  /-- The set declares the same identities with options left as bytes. -/
  declares : ∀ key, (∃ payload, Sealed.Declares fs key payload) ↔ set.Declares key
  /-- What is collected is there for a vertex, or for groups that have no members and so
  no vertex. -/
  vertex : ∀ key payload, encoded.get? key = some payload →
    key ∈ (Draft.ofSet set).store.keys ∨ key.kind = .oneOf ∧ set.Declares key ∧
      ∀ m ∈ set.messageSites, ∀ g ∈ m.declaredGroups, g.key = key → g.members = []
  /-- A message, a field or an enum whose options are not empty has a vertex, and options
  of a declaration with its identity are collected under the identity of the vertex. -/
  entry : ∀ key payload, key.kind ≠ .oneOf → Sealed.Declares fs key (some payload) →
    payload ≠ [] → key ∈ (Draft.ofSet set).store.keys ∧
      ∃ last, encoded.get? key = some last ∧ last ≠ [] ∧ Sealed.Declares fs key (some last)
  /-- The vertex gets the collected options, if they can be decoded. -/
  attached : ∀ registry g n,
    Draft.attach registry encoded.entries (Draft.ofSet set).store = .ok (g, n) →
    ∀ key payload, encoded.get? key = some payload → key ∈ (Draft.ofSet set).store.keys →
      ∃ id e, (Draft.ofSet set).store.find? key = some id ∧ g.find? key = some id ∧
        g.element? id = some e ∧ e.key = key ∧
        CustomOption.decode registry key.kind.extendee payload = .ok e.options

/-- Options are collected under the identities that the graph gives to the declarations. -/
theorem collected (hset : FileSet.decode bs = .ok set) (hencoded : decode bs = .ok encoded) :
    ∃ fs, Wire.decode Sealed.grammar .fileSet bs = .ok fs ∧ encoded.Collects set fs := by
  obtain ⟨fs, hread, hfiles⟩ := Sealed.exists_of_decode hset
  obtain ⟨entries, rfl, hentries⟩ := exists_entries_of_decode hread hencoded
  have hdeclares (key : ElementKey) : (∃ payload, Sealed.Declares fs key payload) ↔
      set.Declares key := Sealed.declares_iff hfiles
  refine ⟨fs, hread, hdeclares, ?vertex, ?entry, ?attached⟩
  case vertex =>
    intro key payload hget
    have hdeclared := ((hentries key payload).mp (mem_of_get?_ofEntries hget)).2
    have hset := (hdeclares key).mp ⟨_, hdeclared⟩
    exact hset.vertex_or_bare.imp_right fun ⟨hkind, hbare⟩ => ⟨hkind, hset, hbare⟩
  case entry =>
    intro key payload hkind hdeclared hne
    have hvertex := ((hdeclares key).mp ⟨_, hdeclared⟩).vertex_or_bare
    refine ⟨hvertex.resolve_right fun ⟨honeOf, _⟩ => hkind honeOf, ?_⟩
    obtain ⟨last, hget⟩ := exists_get?_of_mem ((hentries key payload).mpr ⟨hne, hdeclared⟩)
    obtain ⟨hlast, hlastDeclared⟩ := (hentries key last).mp (mem_of_get?_ofEntries hget)
    exact ⟨last, hget, hlast, hlastDeclared⟩
  case attached =>
    intro registry g n hattach key payload hget hthere
    exact exists_element_of_attach (nodup_keys_ofEntries entries) hget hattach hthere

/-- A message with options in a message with a group that has options and no members. -/
def bareGroupBytes : Bytes :=
  lengthField 1 (lengthField 1 [0x61] ++ lengthField 2 [0x61] ++
    lengthField 4 (lengthField 1 [0x41] ++
      lengthField 3 (lengthField 1 [0x42] ++ lengthField 7 [192, 62, 1]) ++
      lengthField 8 (lengthField 1 [0x6F] ++ lengthField 2 [192, 62, 1])) ++
    lengthField 7 (lengthField 1 [104, 105, 100] ++
      lengthField 2 [46, 103, 111, 111, 103, 108, 101, 46, 112, 114, 111, 116, 111, 98, 117, 102,
        46, 77, 101, 115, 115, 97, 103, 101, 79, 112, 116, 105, 111, 110, 115] ++
      [24, 232, 7, 32, 1, 40, 8]))

/-- The options of the message reach its vertex, and the group has no vertex. -/
theorem collected_bareGroupBytes :
    ∃ set encoded g n id e, FileSet.decode bareGroupBytes = .ok set ∧
      decode bareGroupBytes = .ok encoded ∧
      encoded.get? ⟨.oneOf, "a.A.o"⟩ = some [192, 62, 1] ∧
      ⟨.oneOf, "a.A.o"⟩ ∉ (Draft.ofSet set).store.keys ∧
      Draft.attach (Registry.ofSet set) encoded.entries (Draft.ofSet set).store = .ok (g, n) ∧
      g.find? ⟨.message, "a.A.B"⟩ = some id ∧ g.element? id = some e ∧
      e.options = [⟨"a.hid", 1000, .bool true⟩] := by
  have hset : (FileSet.decode bareGroupBytes).map (fun set =>
      ((Draft.ofSet set).store.keys, (Draft.attach (Registry.ofSet set)
          [(⟨.oneOf, "a.A.o"⟩, [192, 62, 1]), (⟨.message, "a.A.B"⟩, [192, 62, 1])]
          (Draft.ofSet set).store).isOk,
        (CustomOption.decode (Registry.ofSet set) "google.protobuf.MessageOptions"
          [192, 62, 1]).toOption)) =
      .ok ([⟨.message, "a.A"⟩, ⟨.message, "a.A.B"⟩], true,
        some [⟨"a.hid", 1000, .bool true⟩]) := by
    decide +kernel
  have hencoded : (decode bareGroupBytes).map (·.entries) =
      .ok [(⟨.oneOf, "a.A.o"⟩, [192, 62, 1]), (⟨.message, "a.A.B"⟩, [192, 62, 1])] := by
    decide +kernel
  obtain ⟨set, hset, hfound⟩ := exists_of_map_ok hset
  obtain ⟨⟨entries⟩, hencoded, rfl⟩ := exists_of_map_ok hencoded
  obtain ⟨hkeys, hfound⟩ := Prod.mk.inj hfound
  obtain ⟨hattached, hoptions⟩ := Prod.mk.inj hfound
  obtain ⟨fs, -, hcollects⟩ := collected hset hencoded
  have hbare : (⟨.oneOf, "a.A.o"⟩ : ElementKey) ∉ (Draft.ofSet set).store.keys := by
    rw [hkeys]
    decide
  cases hrun : Draft.attach (Registry.ofSet set)
      [(⟨.oneOf, "a.A.o"⟩, [192, 62, 1]), (⟨.message, "a.A.B"⟩, [192, 62, 1])]
      (Draft.ofSet set).store with
  | error fault =>
      rw [hrun] at hattached
      cases hattached
  | ok attached =>
      obtain ⟨g, n⟩ := attached
      -- A message is no group, so what is collected for it is there for a vertex.
      have hthere : (⟨.message, "a.A.B"⟩ : ElementKey) ∈ (Draft.ofSet set).store.keys :=
        (hcollects.vertex ⟨.message, "a.A.B"⟩ [192, 62, 1] (by decide)).resolve_right
          fun honeOf => ElementKind.noConfusion honeOf.1
      obtain ⟨id, e, -, hfind, he, -, hdecode⟩ :=
        hcollects.attached _ g n hrun ⟨.message, "a.A.B"⟩ [192, 62, 1] (by decide) hthere
      refine ⟨set, _, g, n, id, e, hset, hencoded, by decide, hbare, hrun, hfind, he, ?_⟩
      have hdecode' : CustomOption.decode (Registry.ofSet set) "google.protobuf.MessageOptions"
          [192, 62, 1] = .ok e.options := hdecode
      rw [hdecode'] at hoptions
      exact Option.some.inj hoptions

end EncodedOptions

end SchemaGraph

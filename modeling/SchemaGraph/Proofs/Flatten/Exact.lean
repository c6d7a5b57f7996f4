import SchemaGraph.Proofs.Flatten.Effect
import SchemaGraph.Proofs.Schema.Attach
import SchemaGraph.Proofs.Schema.FieldTypes
import SchemaGraph.Proofs.Schema.Links

/-!
# Flattening the graph of a set

The main result, `flatten_exact`: if each message of the wrappers file wraps one
scalar, the graph of a set, with or without custom options, becomes what
`Store.Flattened` says when its wrapper messages are flattened.

* `FileSet.PlainWrappers` is the assumption about the wrappers file;
* `Drawn` is what is known of a graph of such a set, and `Drawn.link` reads every
  edge as one of the four sorts of edges that a set has;
* the facts that flattening needs follow sort by sort (`Drawn.flattenable`).

The wrappers file may be absent, and may declare enums.
-/

namespace SchemaGraph

/-- Every message of the wrappers file wraps one scalar: it has a single field,
which is not typed as a message or an enum and is in no oneof group. -/
def FileSet.PlainWrappers (set : FileSet) : Prop :=
  ∀ m ∈ set.messageSites, m.file.name = wrappersFile → m.fields.length = 1 ∧
    ∀ f ∈ m.fields, f.decl.type.isNamed = false ∧ f.group?.isNone = true

instance (set : FileSet) : Decidable set.PlainWrappers :=
  inferInstanceAs (Decidable (∀ m ∈ set.messageSites, m.file.name = wrappersFile →
    m.fields.length = 1 ∧ ∀ f ∈ m.fields, f.decl.type.isNamed = false ∧ f.group?.isNone = true))

/-- The file that a declaration stands in. -/
def Site.home : Site → FileDecl
  | .message m => m.file
  | .field f => f.message.file
  | .group g => g.message.file
  | .enum e => e.file

/-- Whether a declaration stands in the wrappers file. -/
def Site.isWrapped (s : Site) : Prop := s.home.name = wrappersFile

/-- A declaration stands in the file of what it belongs to. -/
theorem home_of_owner {s owner : Site} (howner : s.owner? = some owner) : owner.home = s.home := by
  cases s with
  | message m => cases howner
  | enum e => cases howner
  | group g =>
      obtain rfl := Option.some.inj howner
      rfl
  | field f =>
      rw [Site.owner?] at howner
      split at howner
      · next g hgroup =>
        obtain rfl := Option.some.inj howner
        have hdeclared := (FieldSite.group?_eq_some_iff.mp hgroup).1
        show g.message.file = f.message.file
        rw [MessageSite.message_of_mem_declaredGroups hdeclared]
      · obtain rfl := Option.some.inj howner
        rfl

/-- The field `f` is typed as a wrapper message, and `p` is the field of this. -/
structure FileSet.Wraps (set : FileSet) (f p : FieldSite) : Prop where
  field : f ∈ set.fieldSites
  holds : f.decl.HoldsMessage
  primitive : p ∈ set.fieldSites
  file : p.message.file.name = wrappersFile
  refers : f.decl.RefersTo p.message.fullName

theorem FileSet.wraps_of_reference {set : FileSet} {f p : FieldSite} (hf : f ∈ set.fieldSites)
    (htype : f.decl.type.isMessage = true) (hp : p ∈ set.fieldSites)
    (hfile : p.message.file.name = wrappersFile) (hname : p.message.fullName = f.decl.reference) :
    set.Wraps f p :=
  ⟨hf, FieldDecl.holdsMessage_iff.mpr htype, hp, hfile, FieldDecl.refersTo_iff.mpr hname.symm⟩

theorem FileSet.Wraps.type {set : FileSet} {f p : FieldSite} (h : set.Wraps f p) :
    f.decl.type.isMessage = true :=
  FieldDecl.holdsMessage_iff.mp h.holds

theorem FileSet.Wraps.name {set : FileSet} {f p : FieldSite} (h : set.Wraps f p) :
    p.message.fullName = f.decl.reference :=
  (FieldDecl.refersTo_iff.mp h.refers).symm

/-- A graph of a set whose wrapper messages are plain, with options attached. -/
structure Drawn (set : FileSet) (options : ElementKey → List CustomOption) (g : Store) : Prop where
  names : set.UniqueNames
  wrappers : set.PlainWrappers
  holds : g.Holds (set.elementsWith options) set.links

namespace Drawn

variable {set : FileSet} {options : ElementKey → List CustomOption} {g : Store}
variable {id : VertexId} {e : Element} {s t : Site} {f p : FieldSite}

theorem isWrapped_elementWith (entries : List String) (s : Site) :
    Store.isWrapped (s.elementWith entries options) = true ↔ s.isWrapped := by
  have hfile : (s.elementWith entries options).file = s.home.name := by
    cases s <;> rfl
  rw [Store.isWrapped, hfile, beq_iff_eq, Site.isWrapped]

theorem kind_elementWith (entries : List String) (s : Site) :
    (s.elementWith entries options).kind = s.key.kind :=
  congrArg ElementKey.kind (s.key_elementWith entries options)

/-! ## Vertices and edges by declaration -/

theorem exists_site (h : Drawn set options g) (hmem : (id, e) ∈ g.elements) :
    ∃ s ∈ set.sites, s.elementWith set.mapEntries options = e :=
  List.mem_map.mp (h.holds.mem hmem)

theorem exists_id (h : Drawn set options g) (hs : s ∈ set.sites) :
    ∃ id, (id, s.elementWith set.mapEntries options) ∈ g.elements :=
  h.holds.exists_id (List.mem_map_of_mem hs)

theorem keyOf?_of_mem (h : Drawn set options g)
    (hmem : (id, s.elementWith set.mapEntries options) ∈ g.elements) :
    g.keyOf? id = some s.key := by
  rw [h.holds.valid.keyOf?_of_mem hmem, s.key_elementWith]

/-- Every edge of the graph is one of the four sorts. -/
theorem link (h : Drawn set options g) {l : Link} (hl : l ∈ g.links) (hs : s ∈ set.sites)
    (ht : t ∈ set.sites) (hsource : (l.source, s.elementWith set.mapEntries options) ∈ g.elements)
    (htarget : (l.target, t.elementWith set.mapEntries options) ∈ g.elements) :
    set.IsLink s t l.edge := by
  have hname : g.nameOf? l = some ⟨s.key, t.key, l.edge⟩ :=
    Store.nameOf?_eq_some_iff.mpr ⟨h.keyOf?_of_mem hsource, h.keyOf?_of_mem htarget, rfl⟩
  have hmem := h.holds.links.mem_iff.mp (Store.mem_namedLinks_iff.mpr ⟨l, hl, hname⟩)
  obtain ⟨s', hs', t', ht', hskey, htkey, hlink⟩ := h.names.uniqueKeys.isLink hmem
  rw [h.names.uniqueKeys.eq_of_key hs hs' hskey, h.names.uniqueKeys.eq_of_key ht ht' htkey]
  exact hlink

/-- Every edge of the set is in the graph. -/
theorem exists_link (h : Drawn set options g) {id' : VertexId} {edge : Edge}
    (hn : ⟨s.key, t.key, edge⟩ ∈ set.links)
    (hsource : (id, s.elementWith set.mapEntries options) ∈ g.elements)
    (htarget : (id', t.elementWith set.mapEntries options) ∈ g.elements) :
    ∃ l ∈ g.links, l.source = id ∧ l.target = id' ∧ l.edge = edge := by
  obtain ⟨l, hl, hname⟩ := Store.mem_namedLinks_iff.mp (h.holds.links.mem_iff.mpr hn)
  obtain ⟨hskey, htkey, hedge⟩ := Store.nameOf?_eq_some_iff.mp hname
  exact ⟨l, hl, h.holds.valid.eq_of_keyOf? hskey (h.keyOf?_of_mem hsource),
    h.holds.valid.eq_of_keyOf? htkey (h.keyOf?_of_mem htarget), hedge⟩

theorem isField_iff (h : Drawn set options g) (hs : s ∈ set.sites)
    (hmem : (id, s.elementWith set.mapEntries options) ∈ g.elements) :
    g.isField id = true ↔ ∃ f, s = .field f := by
  rw [Store.isField, h.holds.valid.element?_eq_some_iff.mpr hmem]
  simp only [kind_elementWith, beq_iff_eq]
  constructor
  · exact Site.exists_field
  · rintro ⟨f, rfl⟩
    rfl

/-! ## Wrapper messages -/

/-- A field of the wrappers file is not typed as a message. -/
theorem type_of_wrapped (h : Drawn set options g) (hf : f ∈ set.fieldSites)
    (hwrapped : f.message.file.name = wrappersFile) : f.decl.type.isMessage = false := by
  obtain ⟨hm, hmem⟩ := FileSet.mem_fieldSites_iff.mp hf
  have hnamed := ((h.wrappers f.message hm hwrapped).2 f hmem).1
  cases htype : f.decl.type <;> first | rfl | simp [htype, FieldType.isNamed] at hnamed

/-- A field typed as a wrapper message is not in the wrappers file. -/
theorem home_of_wraps (h : Drawn set options g) (hwraps : set.Wraps f p) :
    ¬ (Site.field f).isWrapped := by
  intro hwrapped
  have htype := hwraps.type
  rw [h.type_of_wrapped hwraps.field hwrapped] at htype
  cases htype

/-- A wrapper message wraps one field. -/
theorem wraps_unique (h : Drawn set options g) {p' : FieldSite} (hwraps : set.Wraps f p)
    (hwraps' : set.Wraps f p') : p = p' := by
  obtain ⟨hm, hp⟩ := FileSet.mem_fieldSites_iff.mp hwraps.primitive
  obtain ⟨hm', hp'⟩ := FileSet.mem_fieldSites_iff.mp hwraps'.primitive
  have hmessage : p.message = p'.message :=
    List.inj_on_of_nodup_map h.names.uniqueKeys.messages hm hm'
      (hwraps.name.trans hwraps'.name.symm)
  obtain ⟨q, hq⟩ := List.length_eq_one_iff.mp (h.wrappers p.message hm hwraps.file).1
  rw [hq] at hp
  rw [← hmessage, hq] at hp'
  rw [List.mem_singleton.mp hp, List.mem_singleton.mp hp']

/-- A primitive that is found is what the type of a field wraps. -/
theorem wraps_of_primitive? (h : Drawn set options g) (hs : s ∈ set.sites)
    (hprimitive : g.primitive? (s.elementWith set.mapEntries options) = some e) :
    ∃ f p, s = .field f ∧ set.Wraps f p ∧
      e = (Site.field p).elementWith set.mapEntries options := by
  rw [Store.primitive?] at hprimitive
  split at hprimitive
  · next htype =>
    have hmessage : (s.element set.mapEntries).isMessageType = true := htype
    obtain ⟨f, rfl, hf⟩ := (isMessageType_element s).mp hmessage
    have hmem := List.mem_of_find?_eq_some hprimitive
    obtain ⟨⟨id, e'⟩, hentry, rfl⟩ := List.mem_map.mp hmem
    obtain ⟨t, ht, rfl⟩ := h.exists_site hentry
    have hsome := List.find?_some hprimitive
    simp only [Bool.and_eq_true, beq_iff_eq, kind_elementWith, isWrapped_elementWith] at hsome
    obtain ⟨⟨hkind, hwrapped⟩, hparent⟩ := hsome
    obtain ⟨p, rfl⟩ := Site.exists_field hkind
    refine ⟨f, p, rfl, FileSet.wraps_of_reference (FileSet.field_mem_sites.mp hs) hf
      (FileSet.field_mem_sites.mp ht) hwrapped ?_, rfl⟩
    rw [← FieldDecl.nativeType_of_isMessage hf]
    exact Option.some.inj hparent
  · cases hprimitive

/-- The primitive of a field is what its type wraps. -/
theorem primitive?_eq_some_iff (h : Drawn set options g) (hs : s ∈ set.sites) :
    g.primitive? (s.elementWith set.mapEntries options) = some e ↔
      ∃ f p, s = .field f ∧ set.Wraps f p ∧
        e = (Site.field p).elementWith set.mapEntries options := by
  refine ⟨h.wraps_of_primitive? hs, ?_⟩
  rintro ⟨f, p, rfl, hwraps, rfl⟩
  cases hprimitive : g.primitive? ((Site.field f).elementWith set.mapEntries options) with
  | some e =>
      -- Whatever is found is wrapped by the same message, which has one field.
      obtain ⟨f', p', heq, hwraps', rfl⟩ := h.wraps_of_primitive? hs hprimitive
      obtain rfl := Site.field.inj heq
      rw [h.wraps_unique hwraps hwraps']
  | none =>
      have htype : ((Site.field f).elementWith set.mapEntries options).isMessageType = true :=
        hwraps.type
      rw [Store.primitive?, if_pos htype] at hprimitive
      obtain ⟨id, hid⟩ := h.exists_id (FileSet.field_mem_sites.mpr hwraps.primitive)
      refine absurd ?_ (List.find?_eq_none.mp hprimitive _ (List.mem_map_of_mem hid))
      have hparent : ((Site.field p).elementWith set.mapEntries options).parent =
          ((Site.field f).elementWith set.mapEntries options).nativeType := by
        show some p.message.fullName = some f.decl.nativeType
        rw [FieldDecl.nativeType_of_isMessage hwraps.type, hwraps.name]
      rw [Bool.and_eq_true, Bool.and_eq_true, beq_iff_eq, beq_iff_eq, isWrapped_elementWith]
      exact ⟨⟨rfl, hwraps.file⟩, hparent⟩

theorem exists_wraps (h : Drawn set options g) (hs : s ∈ set.sites)
    (hprimitive : g.primitive? (s.elementWith set.mapEntries options) ≠ none) :
    ∃ f p, s = .field f ∧ set.Wraps f p := by
  obtain ⟨e, he⟩ := Option.ne_none_iff_exists'.mp hprimitive
  obtain ⟨f, p, heq, hwraps, -⟩ := (h.primitive?_eq_some_iff hs).mp he
  exact ⟨f, p, heq, hwraps⟩

/-! ## What flattening needs -/

/-- The wrapper messages of the graph are those of the set. -/
theorem mem_wrappers_iff (h : Drawn set options g)
    (hmem : (id, s.elementWith set.mapEntries options) ∈ g.elements) :
    id ∈ g.wrappers ↔ s.key.kind = .message ∧ s.isWrapped := by
  rw [Store.wrappers, List.mem_map]
  constructor
  · rintro ⟨⟨i, e⟩, hentry, rfl⟩
    obtain ⟨hentry, hwrapper⟩ := List.mem_filter.mp hentry
    obtain rfl := h.holds.valid.eq_of_id hmem hentry
    rw [Bool.and_eq_true, beq_iff_eq, isWrapped_elementWith, kind_elementWith] at hwrapper
    exact hwrapper
  · rintro ⟨hkind, hwrapped⟩
    refine ⟨_, List.mem_filter.mpr ⟨hmem, ?_⟩, rfl⟩
    rw [Bool.and_eq_true, beq_iff_eq, isWrapped_elementWith, kind_elementWith]
    exact ⟨hkind, hwrapped⟩

/-- The primitives are the fields of the wrapper messages. -/
theorem mem_primitives_iff (h : Drawn set options g) (hs : s ∈ set.sites)
    (hmem : (id, s.elementWith set.mapEntries options) ∈ g.elements) :
    id ∈ g.primitives ↔ ∃ p, s = .field p ∧ p.message.file.name = wrappersFile := by
  rw [Store.primitives, Ordered.mem_natSet, List.mem_filter, h.isField_iff hs hmem, List.mem_map]
  constructor
  · rintro ⟨⟨l, hstep, rfl⟩, f, rfl⟩
    obtain ⟨w, hw, hstep⟩ := List.mem_flatMap.mp hstep
    obtain ⟨hl, hsource⟩ := List.mem_filter.mp (List.mem_of_mem_filter hstep)
    obtain rfl : l.source = w := beq_iff_eq.mp hsource
    obtain ⟨e, hentry⟩ := Store.mem_ids_iff.mp (h.holds.valid.ends l hl).1
    obtain ⟨s, hs', rfl⟩ := h.exists_site hentry
    obtain ⟨hkind, hwrapped⟩ := (h.mem_wrappers_iff hentry).mp hw
    refine ⟨f, rfl, ?_⟩
    have hlink := h.link hl hs' hs hentry hmem
    generalize l.edge = edge at hlink
    -- Only an edge of ownership leaves a message.
    cases hlink with
    | owner _ howner =>
        rw [Site.isWrapped, home_of_owner howner] at hwrapped
        exact hwrapped
    | owned => cases hkind
  · rintro ⟨p, rfl, hfile⟩
    obtain ⟨hm, hp⟩ := FileSet.mem_fieldSites_iff.mp (FileSet.field_mem_sites.mp hs)
    obtain ⟨w, hw⟩ := h.exists_id (FileSet.message_mem_sites.mpr hm)
    have hgroup := ((h.wrappers p.message hm hfile).2 p hp).2
    have howner : (Site.field p).owner? = some (.message p.message) := by
      rw [Site.owner?, Option.isNone_iff_eq_none.mp hgroup]
    obtain ⟨l, hl, hsource, htarget, hedge⟩ :=
      h.exists_link (ownerLink_mem_links hs howner) hw hmem
    refine ⟨⟨l, List.mem_flatMap.mpr ⟨w, ?_, ?_⟩, htarget⟩, p, rfl⟩
    · exact (h.mem_wrappers_iff hw).mpr ⟨rfl, hfile⟩
    · refine List.mem_filter.mpr ⟨List.mem_filter.mpr ⟨hl, beq_iff_eq.mpr hsource⟩, ?_⟩
      rw [hedge]
      rfl

/-- The origins of a primitive are the fields typed as its message. -/
theorem mem_originsOf_iff (h : Drawn set options g) {primitive : VertexId}
    (hp : Site.field p ∈ set.sites) (hfile : p.message.file.name = wrappersFile)
    (hprimitive : (primitive, (Site.field p).elementWith set.mapEntries options) ∈ g.elements)
    (hs : s ∈ set.sites)
    (hmem : (id, s.elementWith set.mapEntries options) ∈ g.elements) :
    id ∈ g.originsOf primitive ↔ ∃ f, s = .field f ∧ set.Wraps f p := by
  have hpfield := FileSet.field_mem_sites.mp hp
  obtain ⟨hm, hpmem⟩ := FileSet.mem_fieldSites_iff.mp hpfield
  rw [Store.originsOf, Ordered.mem_natSet, List.mem_filter, Bool.and_eq_true,
    h.isField_iff hs hmem, List.mem_map]
  constructor
  · rintro ⟨⟨l, hin, rfl⟩, ⟨f, rfl⟩, -⟩
    obtain ⟨hl, htarget⟩ := List.mem_filter.mp hin
    rw [← beq_iff_eq.mp htarget] at hprimitive
    have hlink := h.link hl hs hp hmem hprimitive
    generalize l.edge = edge at hlink
    cases hlink with
    | owner _ howner =>
        rcases Site.kind_owner howner with hkind | hkind <;> cases hkind
    | @owned _ m _ hf htype _ hname howned =>
        refine ⟨f, rfl, FileSet.wraps_of_reference hf htype hpfield hfile ?_⟩
        rcases MessageSite.mem_owned_iff.mp howned with ⟨q, hq, -, heq⟩ | ⟨G, -, heq⟩
        · rw [Site.field.inj heq, MessageSite.message_of_mem_fields hq]
          exact hname
        · cases heq
  · rintro ⟨f, rfl, hwraps⟩
    have hgroup := ((h.wrappers p.message hm hfile).2 p hpmem).2
    have howned : Site.field p ∈ p.message.owned :=
      MessageSite.mem_owned_iff.mpr (Or.inl ⟨p, hpmem, Option.isNone_iff_eq_none.mp hgroup, rfl⟩)
    obtain ⟨l, hl, hsource, htarget, -⟩ := h.exists_link (s := .field f) (t := .field p)
      (ownedLink_mem_links h.names.uniqueKeys hwraps.field hwraps.type hm hwraps.name howned)
      hmem hprimitive
    refine ⟨⟨l, List.mem_filter.mpr ⟨hl, beq_iff_eq.mpr htarget⟩, hsource⟩, ⟨f, rfl⟩, ?_⟩
    have hnot : id ∉ g.wrappers := by
      intro hw
      obtain ⟨hkind, -⟩ := (h.mem_wrappers_iff hmem).mp hw
      cases hkind
    simpa using hnot

/-- The fields to be replaced are those with a primitive. -/
theorem replaces_iff (h : Drawn set options g) {q : Element} :
    g.Replaces id e q ↔ (id, e) ∈ g.elements ∧ g.primitive? e = some q := by
  constructor
  · rintro ⟨primitive, hprimitive, hq, horigin, he⟩
    have hmem := h.holds.valid.element?_eq_some_iff.mp he
    have hqmem := h.holds.valid.element?_eq_some_iff.mp hq
    obtain ⟨s, hs, rfl⟩ := h.exists_site hmem
    obtain ⟨t, ht, rfl⟩ := h.exists_site hqmem
    obtain ⟨p, rfl, hfile⟩ := (h.mem_primitives_iff ht hqmem).mp hprimitive
    obtain ⟨f, rfl, hwraps⟩ := (h.mem_originsOf_iff ht hfile hqmem hs hmem).mp horigin
    exact ⟨hmem, (h.primitive?_eq_some_iff hs).mpr ⟨f, p, rfl, hwraps, rfl⟩⟩
  · rintro ⟨hmem, hsome⟩
    obtain ⟨s, hs, rfl⟩ := h.exists_site hmem
    obtain ⟨f, p, rfl, hwraps, rfl⟩ := (h.primitive?_eq_some_iff hs).mp hsome
    have hp := FileSet.field_mem_sites.mpr hwraps.primitive
    obtain ⟨primitive, hprimitive⟩ := h.exists_id hp
    exact ⟨primitive, (h.mem_primitives_iff hp hprimitive).mpr ⟨p, rfl, hwraps.file⟩,
      h.holds.valid.element?_eq_some_iff.mpr hprimitive,
      (h.mem_originsOf_iff hp hwraps.file hprimitive hs hmem).mpr ⟨f, rfl, hwraps⟩,
      h.holds.valid.element?_eq_some_iff.mpr hmem⟩

/-- A field typed as a wrapper message leads into the wrappers file. -/
theorem isWrapped_of_link_from (h : Drawn set options g) {edge : Edge}
    (hlink : set.IsLink (.field f) t edge) (hwraps : set.Wraps f p) : t.isWrapped := by
  obtain ⟨hm, -⟩ := FileSet.mem_fieldSites_iff.mp hwraps.primitive
  have hsame {m : MessageSite} (hmem : m ∈ set.messageSites)
      (hname : m.fullName = f.decl.reference) : m = p.message :=
    List.inj_on_of_nodup_map h.names.uniqueKeys.messages hmem hm (hname.trans hwraps.name.symm)
  cases hlink with
  | owner _ howner => rcases Site.kind_owner howner with hkind | hkind <;> cases hkind
  | owned _ _ hmem hname howned =>
      obtain rfl := hsame hmem hname
      rcases MessageSite.mem_owned_iff.mp howned with ⟨q, hq, -, rfl⟩ | ⟨G, hG, rfl⟩
      · show q.message.file.name = wrappersFile
        rw [MessageSite.message_of_mem_fields hq]
        exact hwraps.file
      · show G.message.file.name = wrappersFile
        rw [MessageSite.message_of_mem_groups hG]
        exact hwraps.file
  | message _ _ hmem hname =>
      obtain rfl := hsame hmem hname
      exact hwraps.file
  | enum _ he hname =>
      -- An enum with the name of the message would be a second declaration with it.
      rw [FieldDecl.nativeType_of_isMessage hwraps.type, ← hwraps.name] at hname
      have heq := List.inj_on_of_nodup_map h.names (FileSet.enum_mem_sites.mpr he)
        (FileSet.message_mem_sites.mpr hm) hname
      cases heq

/-- Nothing in the wrappers file leads to a field typed as a wrapper message. -/
theorem not_isWrapped_of_link_to (h : Drawn set options g) {edge : Edge}
    (hlink : set.IsLink s (.field f) edge) (hwraps : set.Wraps f p) : ¬ s.isWrapped := by
  cases hlink with
  | owner _ howner =>
      have hhome := h.home_of_wraps hwraps
      rwa [Site.isWrapped, ← home_of_owner howner] at hhome
  | owned hf htype _ _ _ =>
      intro hwrapped
      rw [h.type_of_wrapped hf hwrapped] at htype
      cases htype

/-- The graph of a set whose wrapper messages are plain can be flattened. -/
theorem flattenable (h : Drawn set options g) : g.Flattenable where
  valid := h.holds.valid
  primitives := by
    intro id hid
    have hfield : g.isField id = true := by
      rw [Store.primitives, Ordered.mem_natSet] at hid
      exact (List.mem_filter.mp hid).2
    obtain ⟨e, hmem⟩ : ∃ e, (id, e) ∈ g.elements := by
      rw [Store.isField] at hfield
      split at hfield
      · next e he => exact ⟨e, h.holds.valid.element?_eq_some_iff.mp he⟩
      · cases hfield
    obtain ⟨s, hs, rfl⟩ := h.exists_site hmem
    obtain ⟨p, rfl, hfile⟩ := (h.mem_primitives_iff hs hmem).mp hid
    exact ⟨_, hmem, (isWrapped_elementWith _ _).mpr hfile⟩
  replaces := fun id e q => h.replaces_iff
  outside := by
    intro id e hmem hsome
    obtain ⟨s, hs, rfl⟩ := h.exists_site hmem
    obtain ⟨f, p, rfl, hwraps⟩ := h.exists_wraps hs hsome
    rw [← Bool.not_eq_true, isWrapped_elementWith]
    exact h.home_of_wraps hwraps
  leaving := by
    intro l hl s t hs ht hsome
    obtain ⟨s, hsite, rfl⟩ := h.exists_site hs
    obtain ⟨t, htsite, rfl⟩ := h.exists_site ht
    obtain ⟨f, p, rfl, hwraps⟩ := h.exists_wraps hsite hsome
    rw [isWrapped_elementWith]
    exact h.isWrapped_of_link_from (h.link hl hsite htsite hs ht) hwraps
  entering := by
    intro l hl s t hs ht hsome
    obtain ⟨s, hsite, rfl⟩ := h.exists_site hs
    obtain ⟨t, htsite, rfl⟩ := h.exists_site ht
    obtain ⟨f, p, rfl, hwraps⟩ := h.exists_wraps htsite hsome
    rw [← Bool.not_eq_true, isWrapped_elementWith]
    exact h.not_isWrapped_of_link_to (h.link hl hsite htsite hs ht) hwraps
  ends := (h.holds.links.map _).nodup_iff.mpr h.names.uniqueKeys.nodup_ends

end Drawn

/-- The graph of a set with options attached is drawn from the set. -/
theorem drawn_attached {set : FileSet} {registry : Registry}
    {encoded : List (ElementKey × List UInt8)} {g : Store} {n : Nat} (h : set.UniqueNames)
    (hwrappers : set.PlainWrappers)
    (hattach : Draft.attach registry encoded (Draft.ofSet set).store = .ok (g, n)) :
    Drawn set (optionsSet registry encoded) g :=
  ⟨h, hwrappers, holds_attached h.uniqueKeys hattach⟩

/-- Whatever options are attached, the graph is drawn from the set. -/
theorem drawn_of_attach {set : FileSet} {registry : Registry}
    {encoded : List (ElementKey × List UInt8)} {g : Store} {n : Nat} (h : set.UniqueNames)
    (hwrappers : set.PlainWrappers)
    (hattach : Draft.attach registry encoded (Draft.ofSet set).store = .ok (g, n)) :
    ∃ options, Drawn set options g :=
  ⟨_, drawn_attached h hwrappers hattach⟩

/-- Flattening the graph of a set, with or without options attached, does exactly
what it should. -/
theorem flatten_exact {set : FileSet} {registry : Registry}
    {encoded : List (ElementKey × List UInt8)} {g : Store} {n : Nat} (h : set.UniqueNames)
    (hwrappers : set.PlainWrappers)
    (hattach : Draft.attach registry encoded (Draft.ofSet set).store = .ok (g, n)) :
    g.Flattened g.flatten := by
  obtain ⟨options, hdrawn⟩ := drawn_of_attach h hwrappers hattach
  exact hdrawn.flattenable.flattened

/-- The graph of the shop, where the title of an item is typed as a wrapper. -/
theorem flatten_exact_shopSet :
    shopSet.UniqueNames ∧ shopSet.PlainWrappers ∧
      Draft.attach (Registry.ofSet shopSet) [] (Draft.ofSet shopSet).store =
        .ok ((Draft.ofSet shopSet).store, 0) ∧
      (Draft.ofSet shopSet).store.Flattened (Draft.ofSet shopSet).store.flatten ∧
      ∃ id e p, (id, e) ∈ (Draft.ofSet shopSet).store.elements ∧
        e.fullName = "shop.v2.Item.title" ∧ (Draft.ofSet shopSet).store.primitive? e = some p := by
  have hnames : shopSet.UniqueNames := by decide +kernel
  have hwrappers : shopSet.PlainWrappers := by decide +kernel
  have hattach : Draft.attach (Registry.ofSet shopSet) [] (Draft.ofSet shopSet).store =
      .ok ((Draft.ofSet shopSet).store, 0) := rfl
  refine ⟨hnames, hwrappers, hattach, flatten_exact hnames hwrappers hattach, ?_⟩
  obtain ⟨options, hdrawn⟩ := drawn_of_attach hnames hwrappers hattach
  obtain ⟨f, hf, hname, htype, p, hp, hfile, hreference⟩ : ∃ f ∈ shopSet.fieldSites,
      f.fullName = "shop.v2.Item.title" ∧ f.decl.type.isMessage = true ∧
      ∃ p ∈ shopSet.fieldSites, p.message.file.name = wrappersFile ∧
        p.message.fullName = f.decl.reference := by decide +kernel
  obtain ⟨id, hid⟩ := hdrawn.exists_id (FileSet.field_mem_sites.mpr hf)
  exact ⟨id, _, _, hid, hname, (hdrawn.primitive?_eq_some_iff
    (FileSet.field_mem_sites.mpr hf)).mpr
      ⟨f, p, rfl, FileSet.wraps_of_reference hf htype hp hfile hreference, rfl⟩⟩

end SchemaGraph

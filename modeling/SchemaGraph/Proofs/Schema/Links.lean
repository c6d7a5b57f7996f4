import SchemaGraph.Proofs.Schema.Resolve

/-!
# The edges of a set

What the edges of a set are, said once (`FileSet.IsLink`), so that later facts
about them are case analyses:

* an edge of ownership, from a message or a group into what belongs to it;
* for a message-typed field, an edge to everything its message directly owns and
  one to the message;
* for a field whose path type is that of an enum, an edge to the enum.

No two edges have the same ends (`UniqueKeys.nodup_ends`).
-/

namespace SchemaGraph

/-- What an edge of a set is: the declarations at its ends, and its label. -/
inductive FileSet.IsLink (set : FileSet) : Site → Site → Edge → Prop where
  | owner {s owner : Site} (hs : s ∈ set.sites) (howner : s.owner? = some owner) :
      set.IsLink owner s (Edge.into (s.element set.mapEntries))
  | owned {f : FieldSite} {m : MessageSite} {s : Site} (hf : f ∈ set.fieldSites)
      (htype : f.decl.type.isMessage = true) (hm : m ∈ set.messageSites)
      (hname : m.fullName = f.decl.reference) (hs : s ∈ m.owned) :
      set.IsLink (.field f) s (Edge.into (s.element set.mapEntries))
  | message {f : FieldSite} {m : MessageSite} (hf : f ∈ set.fieldSites)
      (htype : f.decl.type.isMessage = true) (hm : m ∈ set.messageSites)
      (hname : m.fullName = f.decl.reference) :
      set.IsLink (.field f) (.message m) ⟨.typeRef, (m.element set.mapEntries).pathType, true⟩
  | enum {f : FieldSite} {e : EnumSite} (hf : f ∈ set.fieldSites) (he : e ∈ set.enumSites)
      (hname : e.fullName = f.decl.nativeType) :
      set.IsLink (.field f) (.enum e) ⟨.typeRef, (e.element set.mapEntries).pathType, false⟩

section Links

variable {set : FileSet} {f : FieldSite} {m : MessageSite} {s owner : Site} {n : PendingLink}

theorem mem_messageReferences_iff :
    n ∈ (Site.field f).messageReferences set ↔ f.decl.type.isMessage = true ∧
      ∃ m, set.message? f.decl.reference = some m ∧ n ∈ f.messageLinks set.mapEntries m := by
  rw [Site.messageReferences]
  split
  · next htype =>
    rw [FieldDecl.nativeType_of_isMessage htype]
    cases set.message? f.decl.reference <;> simp [htype]
  · next htype => simp [htype]

theorem mem_enumReferences_iff :
    n ∈ (Site.field f).enumReferences set ↔
      Text.endsWith (f.element set.mapEntries).pathType enumTag = true ∧
        ∃ e, set.enum? f.decl.nativeType = some e ∧ n = f.enumLink set.mapEntries e := by
  rw [Site.enumReferences]
  split
  · next htag =>
    rw [Option.mem_toList, Option.map_eq_some_iff]
    simp only [htag, true_and, eq_comm (b := n)]
  · next htag => simp [htag]

theorem mem_messageLinks_iff {entries : List String} :
    n ∈ f.messageLinks entries m ↔
      (∃ s ∈ m.owned, n = ⟨f.key, s.key, Edge.into (s.element entries)⟩) ∨
        n = ⟨f.key, m.key, ⟨.typeRef, (m.element entries).pathType, true⟩⟩ := by
  rw [FieldSite.messageLinks, List.mem_append, List.mem_map, List.mem_singleton]
  simp only [eq_comm]

/-- What owns a declaration of a set is declared by the set. -/
theorem owner_mem_sites (hs : s ∈ set.sites) (howner : s.owner? = some owner) :
    owner ∈ set.sites := by
  cases s with
  | message m => cases howner
  | enum e => cases howner
  | group g =>
      obtain rfl := Option.some.inj howner
      exact FileSet.message_mem_sites.mpr
        (FileSet.mem_groupSites_iff.mp (FileSet.group_mem_sites.mp hs)).1
  | field f =>
      obtain ⟨hm, hf⟩ := FileSet.mem_fieldSites_iff.mp (FileSet.field_mem_sites.mp hs)
      rw [Site.owner?] at howner
      split at howner
      · next g hgroup =>
        obtain rfl := Option.some.inj howner
        have hg := FieldSite.group_mem_groups hf hgroup
        refine FileSet.group_mem_sites.mpr (FileSet.mem_groupSites_iff.mpr ?_)
        rw [MessageSite.message_of_mem_groups hg]
        exact ⟨hm, hg⟩
      · obtain rfl := Option.some.inj howner
        exact FileSet.message_mem_sites.mpr hm

/-- The edges of a set are of these four sorts. -/
theorem FileSet.UniqueKeys.isLink (h : set.UniqueKeys) (hn : n ∈ set.links) :
    ∃ s ∈ set.sites, ∃ t ∈ set.sites,
      n.source = s.key ∧ n.target = t.key ∧ set.IsLink s t n.edge := by
  rcases List.mem_append.mp hn with hn | hn
  · obtain ⟨s, hs, hlink⟩ := List.mem_filterMap.mp hn
    obtain ⟨owner, howner, rfl⟩ := Option.map_eq_some_iff.mp hlink
    exact ⟨owner, owner_mem_sites hs howner, s, hs, rfl, rfl, IsLink.owner hs howner⟩
  · obtain ⟨s, hs, hn⟩ := List.mem_flatMap.mp hn
    cases s with
    | message m => exact absurd hn List.not_mem_nil
    | group g => exact absurd hn List.not_mem_nil
    | enum e => exact absurd hn List.not_mem_nil
    | field f =>
        have hf := field_mem_sites.mp hs
        rcases List.mem_append.mp hn with hn | hn
        · obtain ⟨htype, m, hm, hn⟩ := mem_messageReferences_iff.mp hn
          obtain ⟨hm, hname⟩ := h.message?_eq_some_iff.mp hm
          rcases mem_messageLinks_iff.mp hn with ⟨t, ht, rfl⟩ | rfl
          · exact ⟨.field f, hs, t, mem_sites_of_mem_owned hm ht, rfl, rfl,
              IsLink.owned hf htype hm hname ht⟩
          · exact ⟨.field f, hs, .message m, message_mem_sites.mpr hm, rfl, rfl,
              IsLink.message hf htype hm hname⟩
        · -- That the field is typed as an enum is not known from its path type alone.
          obtain ⟨-, e, he, rfl⟩ := mem_enumReferences_iff.mp hn
          obtain ⟨he, hname⟩ := h.enum?_eq_some_iff.mp he
          exact ⟨.field f, hs, .enum e, enum_mem_sites.mpr he, rfl, rfl, IsLink.enum hf he hname⟩

theorem ownerLink_mem_links (hs : s ∈ set.sites) (howner : s.owner? = some owner) :
    ⟨owner.key, s.key, Edge.into (s.element set.mapEntries)⟩ ∈ set.links := by
  refine List.mem_append_left _ (List.mem_filterMap.mpr ⟨s, hs, ?_⟩)
  rw [Site.ownerLink?, howner]
  rfl

theorem ownedLink_mem_links (h : set.UniqueKeys) (hf : f ∈ set.fieldSites)
    (htype : f.decl.type.isMessage = true) (hm : m ∈ set.messageSites)
    (hname : m.fullName = f.decl.reference) (hs : s ∈ m.owned) :
    ⟨f.key, s.key, Edge.into (s.element set.mapEntries)⟩ ∈ set.links := by
  refine List.mem_append_right _
    (List.mem_flatMap.mpr ⟨.field f, FileSet.field_mem_sites.mpr hf, ?_⟩)
  refine List.mem_append_left _ (mem_messageReferences_iff.mpr ⟨htype, m, ?_, ?_⟩)
  · exact h.message?_eq_some_iff.mpr ⟨hm, hname⟩
  · exact mem_messageLinks_iff.mpr (Or.inl ⟨s, hs, rfl⟩)

theorem MessageSite.mem_owned_iff :
    s ∈ m.owned ↔ (∃ f ∈ m.fields, f.group? = none ∧ s = .field f) ∨
      ∃ g ∈ m.groups, s = .group g := by
  rw [owned, ownedOf, List.mem_append, List.mem_map, List.mem_map]
  simp only [List.mem_filter, Option.isNone_iff_eq_none, and_assoc, eq_comm (b := s)]
  rfl

/-- Every edge of reference leaves the field that it is listed for. -/
theorem Site.source_of_mem_references (hn : n ∈ s.references set) :
    n.source = s.key ∧ s.key.kind = .field := by
  cases s with
  | message m => exact absurd hn List.not_mem_nil
  | group g => exact absurd hn List.not_mem_nil
  | enum e => exact absurd hn List.not_mem_nil
  | field f =>
      rcases List.mem_append.mp hn with hn | hn
      · obtain ⟨-, m, -, hn⟩ := mem_messageReferences_iff.mp hn
        rcases mem_messageLinks_iff.mp hn with ⟨s, -, rfl⟩ | rfl <;> exact ⟨rfl, rfl⟩
      · obtain ⟨-, e, -, rfl⟩ := mem_enumReferences_iff.mp hn
        exact ⟨rfl, rfl⟩

/-- Only messages and groups own anything. -/
theorem Site.kind_owner (howner : s.owner? = some owner) :
    owner.key.kind = .message ∨ owner.key.kind = .oneOf := by
  cases s with
  | message m => cases howner
  | enum e => cases howner
  | group g =>
      obtain rfl := Option.some.inj howner
      exact Or.inl rfl
  | field f =>
      rw [owner?] at howner
      split at howner
      · obtain rfl := Option.some.inj howner
        exact Or.inr rfl
      · obtain rfl := Option.some.inj howner
        exact Or.inl rfl

/-- A message and what it owns have different identities. -/
theorem FileSet.UniqueKeys.owned (h : set.UniqueKeys) {m : MessageSite}
    (hm : m ∈ set.messageSites) : ((.message m :: m.owned).map Site.key).Nodup := by
  have howned : (Site.message m :: m.owned).Sublist m.sites :=
    (((List.filter_sublist.map _).append_right _).trans (List.sublist_append_right _ _)).cons_cons _
  have hsites : m.sites.Sublist set.sites :=
    (List.sublist_flatten_of_mem (List.mem_map_of_mem hm)).trans
      (set.flatMap_messageSites_sublist MessageSite.sites fun m => List.Sublist.refl m.sites)
  exact h.sublist ((howned.trans hsites).map _)

/-- A declaration refers to each other one at most once. -/
theorem Site.nodup_references (h : set.UniqueKeys) (s : Site) :
    ((s.references set).map PendingLink.target).Nodup := by
  cases s with
  | message m => exact List.nodup_nil
  | group g => exact List.nodup_nil
  | enum e => exact List.nodup_nil
  | field f =>
      rw [references, List.map_append, List.nodup_append]
      refine ⟨?_, ?_, ?_⟩
      · rw [messageReferences]
        split
        · cases hm : set.message? f.decl.nativeType with
          | none => exact List.nodup_nil
          | some m =>
              have howned := h.owned (h.message?_eq_some_iff.mp hm).1
              show ((f.messageLinks set.mapEntries m).map PendingLink.target).Nodup
              rw [FieldSite.messageLinks, List.map_append, List.map_map]
              exact (List.perm_append_singleton _ _).nodup_iff.mpr howned
        · exact List.nodup_nil
      · rw [enumReferences]
        split
        · cases set.enum? f.decl.nativeType with
          | none => exact List.nodup_nil
          | some e => exact List.nodup_singleton _
        · exact List.nodup_nil
      · rintro key hmessage key' henum rfl
        obtain ⟨n, hn, rfl⟩ := List.mem_map.mp hmessage
        obtain ⟨n', hn', htarget⟩ := List.mem_map.mp henum
        obtain ⟨-, e, -, rfl⟩ := mem_enumReferences_iff.mp hn'
        obtain ⟨-, m, -, hn⟩ := mem_messageReferences_iff.mp hn
        have hkind : n.target.kind = .enum := congrArg ElementKey.kind htarget.symm
        rcases mem_messageLinks_iff.mp hn with ⟨s, hs, rfl⟩ | rfl
        · rcases MessageSite.mem_owned_iff.mp hs with ⟨f', -, -, rfl⟩ | ⟨g, -, rfl⟩ <;>
            cases hkind
        · cases hkind

/-- No two edges of a set have the same ends. -/
theorem FileSet.UniqueKeys.nodup_ends (h : set.UniqueKeys) :
    (set.links.map fun n => (n.source, n.target)).Nodup := by
  have hkeys : set.sites.Pairwise fun s s' => s.key ≠ s'.key := List.pairwise_map.mp h
  rw [List.Nodup, List.pairwise_map, links, List.pairwise_append, List.pairwise_filterMap,
    List.pairwise_flatMap]
  refine ⟨?owners, ⟨?within, ?references⟩, ?between⟩
  case owners =>
    refine hkeys.imp ?_
    intro s s' hne n hn n' hn' heq
    refine hne ?_
    rw [← (ownerLink?_eq_some hn).1, ← (ownerLink?_eq_some hn').1]
    exact congrArg Prod.snd heq
  case within =>
    intro s _
    exact (List.pairwise_map.mp (s.nodup_references h)).imp fun hne heq =>
      hne (congrArg Prod.snd heq)
  case references =>
    refine hkeys.imp ?_
    intro s s' hne n hn n' hn' heq
    refine hne ?_
    rw [← (Site.source_of_mem_references hn).1, ← (Site.source_of_mem_references hn').1]
    exact congrArg Prod.fst heq
  case between =>
    intro n hn n' hn' heq
    obtain ⟨s, -, hlink⟩ := List.mem_filterMap.mp hn
    obtain ⟨owner, howner, rfl⟩ := Option.map_eq_some_iff.mp hlink
    obtain ⟨s', -, hn'⟩ := List.mem_flatMap.mp hn'
    obtain ⟨hsource, hfield⟩ := Site.source_of_mem_references hn'
    have hsame : owner.key = s'.key := (congrArg Prod.fst heq).trans hsource
    rw [← hsame] at hfield
    rcases Site.kind_owner howner with hkind | hkind <;>
      cases hfield.symm.trans hkind

end Links

end SchemaGraph

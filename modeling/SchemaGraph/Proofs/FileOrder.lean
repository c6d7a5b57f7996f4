import SchemaGraph.Proofs.Canonical
import SchemaGraph.Proofs.Flatten.Exact
import SchemaGraph.Proofs.Schema.Numbered

/-!
# The order of files

The order in which a set lists its files is the order in which its declarations are
numbered, and nothing else: sets with the same files in any order lead to stores that
hold the same (`alike_ofSet`).  Flattening looks at numbers where a field leads to
several primitives; these are the fields of one message, whose order is that of the
message (`retypes_ofSet_iff`), so the flattened stores hold the same as well.

With a root that is named outright the finished graphs are equal by their canonical
form, or neither is built (`RootedGraph.ofSet_perm`).  Nothing is said of a root that
is detected, since that looks for the last file.
-/

namespace SchemaGraph

/-! ## The same declarations -/

section Entries

variable {entries entries' : List String}

theorem MessageSite.element_congr (h : ∀ name, entries'.contains name = entries.contains name)
    (m : MessageSite) : m.element entries' = m.element entries := by
  simp only [MessageSite.element, MessageDecl.element, Scope.element, h]

theorem FieldSite.element_congr (h : ∀ name, entries'.contains name = entries.contains name)
    (f : FieldSite) : f.element entries' = f.element entries := by
  have hmap : f.decl.isMap entries' = f.decl.isMap entries := by
    rw [FieldDecl.isMap, FieldDecl.isMap, h]
  have hshape : f.decl.shape entries' = f.decl.shape entries := by
    rw [FieldDecl.shape, FieldDecl.shape, hmap]
  simp only [FieldSite.element, FieldDecl.element, Scope.element, hshape]

/-- A vertex depends on which messages are entries of maps, not on their order. -/
theorem Site.element_congr (h : ∀ name, entries'.contains name = entries.contains name)
    (s : Site) : s.element entries' = s.element entries := by
  cases s with
  | message m => exact m.element_congr h
  | field f => exact f.element_congr h
  | group g => rfl
  | enum e => rfl

theorem Site.kind_element (entries : List String) (s : Site) :
    (s.element entries).kind = s.key.kind :=
  congrArg ElementKey.kind (s.key_element entries)

end Entries

section Perm

variable {set set' : FileSet} {f q : FieldSite} {e p : Element}

namespace FileSet

theorem contains_mapEntries (hfiles : set'.files.Perm set.files) (name : String) :
    set'.mapEntries.contains name = set.mapEntries.contains name :=
  (hfiles.flatMap_right _).contains_eq

theorem sites_perm (hfiles : set'.files.Perm set.files) : set'.sites.Perm set.sites :=
  hfiles.flatMap_right _

theorem messageSites_perm (hfiles : set'.files.Perm set.files) :
    set'.messageSites.Perm set.messageSites :=
  hfiles.flatMap_right _

theorem enumSites_perm (hfiles : set'.files.Perm set.files) :
    set'.enumSites.Perm set.enumSites :=
  hfiles.flatMap_right _

theorem UniqueKeys.of_perm (h : set.UniqueKeys) (hfiles : set'.files.Perm set.files) :
    set'.UniqueKeys :=
  ((sites_perm hfiles).map Site.key).nodup_iff.mpr h

theorem UniqueKeys.message?_eq (h : set.UniqueKeys) (hfiles : set'.files.Perm set.files)
    (name : String) : set'.message? name = set.message? name := by
  refine Option.ext fun m => ?_
  rw [(h.of_perm hfiles).message?_eq_some_iff, h.message?_eq_some_iff,
    (messageSites_perm hfiles).mem_iff]

theorem UniqueKeys.enum?_eq (h : set.UniqueKeys) (hfiles : set'.files.Perm set.files)
    (name : String) : set'.enum? name = set.enum? name := by
  refine Option.ext fun e => ?_
  rw [(h.of_perm hfiles).enum?_eq_some_iff, h.enum?_eq_some_iff, (enumSites_perm hfiles).mem_iff]

theorem elements_perm (hfiles : set'.files.Perm set.files) :
    set'.elements.Perm set.elements := by
  have hsame := Site.element_congr (contains_mapEntries hfiles)
  rw [elements, elements, funext hsame]
  exact (sites_perm hfiles).map _

/-- A declaration refers to the same ones. -/
theorem UniqueKeys.references_eq (h : set.UniqueKeys) (hfiles : set'.files.Perm set.files)
    (s : Site) : s.references set' = s.references set := by
  have hentries := contains_mapEntries hfiles
  cases s with
  | message m => rfl
  | group g => rfl
  | enum e => rfl
  | field f =>
      have hmessage (m : MessageSite) :
          f.messageLinks set'.mapEntries m = f.messageLinks set.mapEntries m := by
        simp only [FieldSite.messageLinks, Site.element_congr hentries, m.element_congr hentries]
      have henum : f.enumLink set'.mapEntries = f.enumLink set.mapEntries := rfl
      simp only [Site.references, Site.messageReferences, Site.enumReferences,
        h.message?_eq hfiles, h.enum?_eq hfiles, funext hmessage, henum,
        f.element_congr hentries]

theorem UniqueKeys.links_perm (h : set.UniqueKeys) (hfiles : set'.files.Perm set.files) :
    set'.links.Perm set.links := by
  have howner : Site.ownerLink? set'.mapEntries = Site.ownerLink? set.mapEntries := by
    funext s
    rw [Site.ownerLink?, Site.ownerLink?, Site.element_congr (contains_mapEntries hfiles)]
  rw [links, links, howner, funext (h.references_eq hfiles)]
  exact ((sites_perm hfiles).filterMap _).append ((sites_perm hfiles).flatMap_right _)

theorem wraps_iff (hfiles : set'.files.Perm set.files) : set'.Wraps f q ↔ set.Wraps f q := by
  have hfields (f : FieldSite) : f ∈ set'.fieldSites ↔ f ∈ set.fieldSites :=
    ((messageSites_perm hfiles).flatMap_right _).mem_iff
  constructor
  · rintro ⟨hf, htype, hq, hfile, hname⟩
    exact ⟨(hfields f).mp hf, htype, (hfields q).mp hq, hfile, hname⟩
  · rintro ⟨hf, htype, hq, hfile, hname⟩
    exact ⟨(hfields f).mpr hf, htype, (hfields q).mpr hq, hfile, hname⟩

end FileSet

/-- The stores of a set with its files in two orders hold the same. -/
theorem alike_ofSet (h : set.UniqueKeys) (hfiles : set'.files.Perm set.files) :
    (Draft.ofSet set).store.Alike (Draft.ofSet set').store := by
  have hholds := (holds_ofSet (h.of_perm hfiles)).perm (FileSet.elements_perm hfiles)
    (h.links_perm hfiles)
  exact (holds_ofSet h).alike hholds

/-! ## The first primitive -/

/-- A field leads to the fields outside groups of the wrapper message that it is typed
as. -/
theorem leadsTo_ofSet_iff {g : Store} (h : set.UniqueKeys) (hg : g.Holds set.elements set.links) :
    g.LeadsTo e p ↔ ∃ f q, set.Wraps f q ∧ q.group? = none ∧ e = f.element set.mapEntries ∧
      p = q.element set.mapEntries := by
  have hcontents {s : Site} (hs : s ∈ set.sites) : s.element set.mapEntries ∈ g.contents :=
    hg.elements.mem_iff.mpr (List.mem_map_of_mem hs)
  have hexists {a : Element} (ha : a ∈ g.contents) : ∃ s ∈ set.sites, s.element set.mapEntries = a :=
    List.mem_map.mp (hg.elements.mem_iff.mp ha)
  have hlink {s t : Site} (hs : s ∈ set.sites) (ht : t ∈ set.sites) {edge : Edge}
      (hmem : ⟨(s.element set.mapEntries).key, (t.element set.mapEntries).key, edge⟩ ∈
        g.namedLinks) : set.IsLink s t edge := by
    rw [s.key_element, t.key_element, hg.links.mem_iff] at hmem
    obtain ⟨s', hs', t', ht', hsource, htarget, hlink⟩ := h.isLink hmem
    rwa [h.eq_of_key hs hs' hsource, h.eq_of_key ht ht' htarget]
  constructor
  · rintro ⟨he, hkind, ⟨hp, hpkind, w, hwmem, hwkind, hwrapped, edge', hedge', hwlink⟩, edge, hlinked⟩
    obtain ⟨s, hs, rfl⟩ := hexists he
    obtain ⟨t, ht, rfl⟩ := hexists hp
    obtain ⟨w, hw, rfl⟩ := hexists hwmem
    rw [s.kind_element] at hkind
    rw [t.kind_element] at hpkind
    rw [w.kind_element] at hwkind
    obtain ⟨f, rfl⟩ := Site.exists_field hkind
    obtain ⟨q, rfl⟩ := Site.exists_field hpkind
    obtain ⟨m, rfl⟩ := Site.exists_message hwkind
    -- A message enters only what it owns.
    cases hlink hw ht hwlink with
    | owner _ howner =>
      obtain ⟨hgroup, rfl⟩ : q.group? = none ∧ q.message = m := by
        rw [Site.owner?] at howner
        split at howner
        · cases howner
        · next hnone => exact ⟨hnone, Site.message.inj (Option.some.inj howner)⟩
      refine ⟨f, q, ?_, hgroup, rfl, rfl⟩
      cases hlink hs ht hlinked with
      | owner _ howner' => cases howner.symm.trans howner'
      | owned hf htype hm hname hq =>
        obtain ⟨q', hq', -, heq⟩ | ⟨_, -, heq⟩ := MessageSite.mem_owned_iff.mp hq
        · obtain rfl := Site.field.inj heq
          obtain rfl := MessageSite.message_of_mem_fields hq'
          exact FileSet.wraps_of_reference hf htype (FileSet.field_mem_sites.mp ht)
            (beq_iff_eq.mp hwrapped) hname
        · cases heq
  · rintro ⟨f, q, hwraps, hgroup, rfl, rfl⟩
    have hf : Site.field f ∈ set.sites := FileSet.field_mem_sites.mpr hwraps.field
    have hq : Site.field q ∈ set.sites := FileSet.field_mem_sites.mpr hwraps.primitive
    obtain ⟨hm, hqm⟩ := FileSet.mem_fieldSites_iff.mp hwraps.primitive
    have howner : (Site.field q).owner? = some (.message q.message) := by
      rw [Site.owner?, hgroup]
    have howned : Site.field q ∈ q.message.owned :=
      MessageSite.mem_owned_iff.mpr (Or.inl ⟨q, hqm, hgroup, rfl⟩)
    refine ⟨hcontents hf, rfl, ⟨hcontents hq, rfl, _, hcontents (FileSet.message_mem_sites.mpr hm),
      rfl, beq_iff_eq.mpr hwraps.file, Edge.into ((Site.field q).element set.mapEntries), rfl, ?_⟩,
      Edge.into ((Site.field q).element set.mapEntries), ?_⟩
    · rw [hg.links.mem_iff]
      exact ownerLink_mem_links hq howner
    · rw [hg.links.mem_iff]
      exact ownedLink_mem_links h hwraps.field hwraps.type hm hwraps.name howned

/-- The first field of a message outside groups. -/
def MessageSite.first? (m : MessageSite) : Option FieldSite :=
  m.fields.find? fun q => q.group?.isNone

theorem MessageSite.group?_of_first? {m : MessageSite} (h : m.first? = some q) :
    q.group? = none := by
  have hnone := List.find?_some h
  exact Option.isNone_iff_eq_none.mp hnone

/-- A wrapper message with a field outside groups has a first one. -/
theorem FileSet.Wraps.exists_first? (hwraps : set.Wraps f q) (hgroup : q.group? = none) :
    ∃ q', q.message.first? = some q' ∧ q'.message = q.message ∧ set.Wraps f q' := by
  obtain ⟨hm, hqm⟩ := FileSet.mem_fieldSites_iff.mp hwraps.primitive
  cases hfirst : q.message.first? with
  | none =>
      have hnot := List.find?_eq_none.mp hfirst q hqm
      rw [hgroup] at hnot
      exact absurd rfl hnot
  | some q' =>
      have hq' : q' ∈ q.message.fields := List.mem_of_find?_eq_some hfirst
      have hmessage := MessageSite.message_of_mem_fields hq'
      refine ⟨q', rfl, hmessage, hwraps.field, hwraps.holds, ?_, ?_, ?_⟩
      · rw [FileSet.mem_fieldSites_iff, hmessage]
        exact ⟨hm, hq'⟩
      · rw [hmessage]
        exact hwraps.file
      · rw [hmessage]
        exact hwraps.refers

/-- The first field has the least number of those outside groups. -/
theorem eq_or_lt_of_first? (h : set.UniqueKeys) (hf : f ∈ set.fieldSites)
    (hfirst : f.message.first? = some f) (hq : q ∈ set.fieldSites) (hmessage : q.message = f.message)
    (hgroup : q.group? = none) {i j : VertexId}
    (hi : (i, f.element set.mapEntries) ∈ (Draft.ofSet set).store.elements)
    (hj : (j, q.element set.mapEntries) ∈ (Draft.ofSet set).store.elements) :
    f = q ∨ i < j := by
  obtain ⟨-, before, after, hsplit, hgroups⟩ := List.find?_eq_some_iff_append.mp hfirst
  have hqm := (FileSet.mem_fieldSites_iff.mp hq).2
  have hsub := h.fields_sublist (FileSet.mem_fieldSites_iff.mp hf).1
  rw [hmessage] at hqm
  rw [hsplit] at hqm hsub
  rcases List.mem_append.mp hqm with hmem | hmem
  · have hnot := hgroups q hmem
    rw [hgroup] at hnot
    cases hnot
  · rcases List.mem_cons.mp hmem with rfl | hmem
    · exact Or.inl rfl
    · refine Or.inr ((holds_ofSet h).valid.lt_of_sublist (ascending_ofSet set) hi hj ?_)
      have hpair : [f, q].Sublist (before ++ f :: after) :=
        ((List.singleton_sublist.mpr hmem).cons_cons f).trans (List.sublist_append_right _ _)
      exact (hpair.map FieldSite.key).trans hsub

/-- Of the fields of a wrapper message the first one outside groups gives its type. -/
theorem retypes_ofSet_iff (h : set.UniqueKeys) :
    (Draft.ofSet set).store.Retypes e p ↔ ∃ f q, set.Wraps f q ∧ q.message.first? = some q ∧
      e = f.element set.mapEntries ∧ p = q.element set.mapEntries := by
  have hg := holds_ofSet h
  have hleads {e p : Element} := leadsTo_ofSet_iff (e := e) (p := p) h hg
  constructor
  · rintro ⟨hleadsTo, hleast⟩
    obtain ⟨f, q, hwraps, hgroup, rfl, rfl⟩ := hleads.mp hleadsTo
    obtain ⟨q', hfirst, hmessage, hwraps'⟩ := hwraps.exists_first? hgroup
    have hnumbers {a : FieldSite} (ha : a ∈ set.fieldSites) :
        ∃ id, (id, a.element set.mapEntries) ∈ (Draft.ofSet set).store.elements :=
      hg.exists_id (List.mem_map_of_mem (f := Site.element set.mapEntries)
        (FileSet.field_mem_sites.mpr ha))
    obtain ⟨i, hi⟩ := hnumbers hwraps.primitive
    obtain ⟨j, hj⟩ := hnumbers hwraps'.primitive
    have hle := hleast i j _ hi hj
      (hleads.mpr ⟨f, q', hwraps', MessageSite.group?_of_first? hfirst, rfl, rfl⟩)
    rw [← hmessage] at hfirst
    rcases eq_or_lt_of_first? h hwraps'.primitive hfirst hwraps.primitive hmessage.symm hgroup hj hi
      with rfl | hlt
    · exact ⟨f, q', hwraps, hfirst, rfl, rfl⟩
    · exact absurd hle (Nat.not_le.mpr hlt)
  · rintro ⟨f, q, hwraps, hfirst, rfl, rfl⟩
    refine ⟨hleads.mpr ⟨f, q, hwraps, MessageSite.group?_of_first? hfirst, rfl, rfl⟩, ?_⟩
    intro i j p' hi hj hleadsTo
    obtain ⟨f', q', hwraps', hgroup', heq, rfl⟩ := hleads.mp hleadsTo
    obtain rfl : f = f' := by
      refine Site.field.inj (h.eq_of_key (FileSet.field_mem_sites.mpr hwraps.field)
        (FileSet.field_mem_sites.mpr hwraps'.field) ?_)
      rw [← Site.key_element set.mapEntries, ← Site.key_element set.mapEntries]
      exact congrArg Element.key heq
    have hmessage : q'.message = q.message :=
      List.inj_on_of_nodup_map h.messages (FileSet.mem_fieldSites_iff.mp hwraps'.primitive).1
        (FileSet.mem_fieldSites_iff.mp hwraps.primitive).1 (hwraps'.name.trans hwraps.name.symm)
    rcases eq_or_lt_of_first? h hwraps.primitive hfirst hwraps'.primitive hmessage hgroup' hi hj
      with rfl | hlt
    · obtain ⟨rfl, -⟩ := hg.valid.eq_of_key hi hj rfl
      exact Nat.le_refl _
    · exact Nat.le_of_lt hlt

/-- Flattened, the stores of a set with its files in two orders hold the same. -/
theorem alike_flatten_ofSet (h : set.UniqueKeys) (hfiles : set'.files.Perm set.files) :
    (Draft.ofSet set).store.flatten.Alike (Draft.ofSet set').store.flatten := by
  refine (alike_ofSet h hfiles).flatten fun e p => ?_
  have hsame := FieldSite.element_congr (FileSet.contains_mapEntries hfiles)
  simp only [retypes_ofSet_iff h, retypes_ofSet_iff (h.of_perm hfiles),
    FileSet.wraps_iff hfiles, hsame]

end Perm

/-! ## Finished graphs -/

namespace Store

theorem Alike.keys_perm {g g' : Store} (h : g.Alike g') : g.keys.Perm g'.keys := by
  have hkeys (g : Store) : g.keys = g.contents.map Element.key := by
    rw [keys, Store.contents, List.map_map]
    rfl
  rw [hkeys, hkeys]
  exact h.contents.map Element.key

end Store

namespace RootedGraph

variable {set set' : FileSet} {options : GraphOptions} {name : String}

/-- With a root that is named, a graph is finished if and only if it is there. -/
theorem finish_of_messageName {g : Store} (set : FileSet) (h : g.Valid)
    (hname : options.messageName = some name) :
    if ElementKey.message name ∈ g.keys then
      ∃ r, finish set options g = .ok r ∧ r.store = g ∧
        r.keyText r.rootId = (ElementKey.message name).text
    else finish set options g = .error (.root (.notFound name)) := by
  have hselect : set.selectRoot options g = g.findMessage name := by
    rw [FileSet.selectRoot, hname]
  rw [finish, hselect, Store.findMessage]
  split
  · next hmem =>
    obtain ⟨id, e, he, hkey⟩ := Store.mem_keys_iff.mp hmem
    have helement := h.element?_eq_some_iff.mpr he
    rw [h.find?_eq_some_iff.mpr ⟨e, he, hkey⟩]
    simp only [helement]
    refine ⟨_, rfl, rfl, keyText_of_keyOf? ?_⟩
    rw [← hkey]
    exact h.keyOf?_of_mem he
  · next hnot => rw [h.find?_eq_none_iff.mpr hnot]

/-- The order of the files of a set leaves no trace in the graph with a named root:
either the root is not there, in whatever order the files are, or the graphs have the
same canonical form and the same identity. -/
theorem ofSet_perm (h : set.UniqueKeys) (hfiles : set'.files.Perm set.files)
    (hname : options.messageName = some name) :
    (ofSet set options = .error (.root (.notFound name)) ∧
        ofSet set' options = .error (.root (.notFound name))) ∨
      ∃ g g', ofSet set options = .ok g ∧ ofSet set' options = .ok g' ∧ g.same g' = true ∧
        g.identityHash = g'.identityHash := by
  have halike : (if options.flattenWrappers then (Draft.ofSet set).store.flatten
      else (Draft.ofSet set).store).Alike
        (if options.flattenWrappers then (Draft.ofSet set').store.flatten
          else (Draft.ofSet set').store) := by
    split
    · exact alike_flatten_ofSet h hfiles
    · exact alike_ofSet h hfiles
  rw [ofSet, ofSet, build, build]
  generalize (if options.flattenWrappers then (Draft.ofSet set).store.flatten
    else (Draft.ofSet set).store) = g at halike
  generalize (if options.flattenWrappers then (Draft.ofSet set').store.flatten
    else (Draft.ofSet set').store) = g' at halike
  have hfinish := finish_of_messageName set halike.valid hname
  have hfinish' := finish_of_messageName set' halike.valid' hname
  simp only [← halike.keys_perm.mem_iff] at hfinish'
  split at hfinish
  · next hmem =>
    rw [if_pos hmem] at hfinish'
    obtain ⟨r, hr, rfl, hroot⟩ := hfinish
    obtain ⟨r', hr', rfl, hroot'⟩ := hfinish'
    have hform := canonicalForm_eq_of_alike halike (hroot.trans hroot'.symm)
    refine Or.inr ⟨r, r', hr, hr', ?_, ?_⟩
    · rw [same, hform]
      exact beq_self_eq_true _
    · rw [identityHash, identityHash, hform]
  · next hnot =>
    rw [if_neg hnot] at hfinish'
    exact Or.inl ⟨hfinish, hfinish'⟩

/-- A wrapper message with two fields, and a message with a field that is typed as
it. -/
def pairFiles : List FileDecl :=
  [{ name := "google/protobuf/wrappers.proto"
     package := "p"
     messages :=
       [{ name := "W"
          fields := [{ name := "a", number := 1, type := .string },
            { name := "b", number := 2, type := .bool }]
          nested := []
          enums := []
          extensions := []
          oneofs := []
          isMapEntry := false }] },
   { name := "m"
     package := "m"
     messages :=
       [{ name := "A"
          fields := [{ name := "x", number := 1, type := .message, typeName := some ".p.W" }]
          nested := []
          enums := []
          extensions := []
          oneofs := []
          isMapEntry := false }] }]

/-- The files in their order and in the opposite one; the field becomes a string in
both. -/
theorem ofSet_perm_pairFiles :
    (FileSet.mk pairFiles).UniqueKeys ∧ pairFiles.reverse.Perm pairFiles ∧
      ∃ g g', ofSet ⟨pairFiles⟩ { messageName := some "m.A" } = .ok g ∧
        ofSet ⟨pairFiles.reverse⟩ { messageName := some "m.A" } = .ok g' ∧
        g.same g' = true ∧ g.identityHash = g'.identityHash ∧
        g.store.contents.map Element.pathType = ["[type=m_A]", "[type=string]"] := by
  have hkeys : (FileSet.mk pairFiles).UniqueKeys := FileSet.UniqueNames.uniqueKeys (by decide +kernel)
  have hfiles : pairFiles.reverse.Perm pairFiles := List.reverse_perm _
  have hbuilt : (ofSet ⟨pairFiles⟩ { messageName := some "m.A" }).map
      (fun g => g.store.contents.map Element.pathType) =
        .ok ["[type=m_A]", "[type=string]"] := by decide +kernel
  refine ⟨hkeys, hfiles, ?_⟩
  have hperm : (FileSet.mk pairFiles.reverse).files.Perm (FileSet.mk pairFiles).files := hfiles
  have hname : ({ messageName := some "m.A" } : GraphOptions).messageName = some "m.A" := rfl
  rcases ofSet_perm hkeys hperm hname with ⟨hmissing, -⟩ | ⟨g, g', hg, hg', hsame, hhash⟩
  · rw [hmissing] at hbuilt
    cases hbuilt
  · rw [hg] at hbuilt
    exact ⟨g, g', hg, hg', hsame, hhash, Except.ok.inj hbuilt⟩

end RootedGraph

end SchemaGraph

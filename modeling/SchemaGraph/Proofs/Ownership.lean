import SchemaGraph.Graph.Rooted
import SchemaGraph.Proofs.Flatten.Exact

/-!
# Ownership in finished graphs

The main result, `ownership_invariant`: in every graph that is built from a set,
whether wrapper messages are flattened or not, each field and each oneof group
is entered from its owner exactly once, a member of a group is entered from the
group only, and a message leads to what it declares only (`Store.Owned`).

* `Store.Follows` says that the edges of a store are, by name, edges of the set,
  and that no edge of ownership is missing between vertices that are there;
* the graph of a set follows it (`Drawn.follows`), and flattening keeps that
  (`Follows.flatten`);
* a store that follows a set is owned (`Follows.owned`).

Which vertices are there is not part of this.
-/

namespace SchemaGraph

/-! ## What is owned -/

/-- Every field belongs to something. -/
theorem Site.exists_owner (f : FieldSite) : ∃ owner, (Site.field f).owner? = some owner := by
  rw [owner?]
  split
  · next g _ => exact ⟨.group g, rfl⟩
  · exact ⟨.message f.message, rfl⟩

namespace Store

/-- What the vertex with a number is. -/
def kindOf? (g : Store) (id : VertexId) : Option ElementKind := (g.element? id).map Element.kind

/-- The edges into a vertex from messages and oneof groups. -/
def ownersOf (g : Store) (id : VertexId) : List Link :=
  (g.incoming id).filter fun l =>
    g.kindOf? l.source == some .message || g.kindOf? l.source == some .oneOf

/-- The edges into a vertex from messages. -/
def parentsOf (g : Store) (id : VertexId) : List Link :=
  (g.incoming id).filter fun l => g.kindOf? l.source == some .message

/-- In a store built from a set everything is entered from its owner. -/
structure Owned (g : Store) (set : FileSet) : Prop where
  /-- Of the edges into a field one comes from a message or a group: its owner. -/
  field : ∀ id e, (id, e) ∈ g.elements → e.kind = .field →
    ∃ f ∈ set.fieldSites, f.key = e.key ∧
      ∃ owner l, (Site.field f).owner? = some owner ∧ g.ownersOf id = [l] ∧
        g.keyOf? l.source = some owner.key
  /-- Of the edges into a group one comes from a message: its parent. -/
  group : ∀ id e, (id, e) ∈ g.elements → e.kind = .oneOf →
    ∃ G ∈ set.groupSites, G.key = e.key ∧
      ∃ l, g.parentsOf id = [l] ∧ g.keyOf? l.source = some G.message.key
  /-- Every edge into a member of a group comes from the group. -/
  member : ∀ id e, (id, e) ∈ g.elements → ∀ f ∈ set.fieldSites, f.key = e.key →
    ∀ G, f.group? = some G → ∀ l ∈ g.incoming id, g.keyOf? l.source = some G.key
  /-- Every edge from a message goes to a field or a group that it declares. -/
  message : ∀ id e, (id, e) ∈ g.elements → e.kind = .message →
    ∃ m ∈ set.messageSites, m.key = e.key ∧ ∀ l ∈ g.outgoing id,
      (∃ f ∈ m.fields, g.keyOf? l.target = some f.key) ∨
        ∃ G ∈ m.groups, g.keyOf? l.target = some G.key

/-- The edges of a store are edges of a set, and none of ownership is missing. -/
structure Follows (g : Store) (set : FileSet) : Prop where
  valid : g.Valid
  keys : ∀ key ∈ g.keys, ∃ s ∈ set.sites, s.key = key
  links : ∀ n ∈ g.namedLinks, ∃ s ∈ set.sites, ∃ t ∈ set.sites, ∃ edge,
    n.source = s.key ∧ n.target = t.key ∧ set.IsLink s t edge
  owners : ∀ s ∈ set.sites, ∀ owner, s.owner? = some owner → s.key ∈ g.keys →
    ∃ n ∈ g.namedLinks, n.source = owner.key ∧ n.target = s.key
  ends : (g.namedLinks.map fun n => (n.source, n.target)).Nodup

namespace Follows

variable {set : FileSet} {g : Store} {id : VertexId} {e : Element} {s owner : Site} {l : Link}
variable {key : ElementKey}

/-! ## Edges by declaration -/

/-- Every edge is between two declarations, and of one of the four sorts. -/
theorem exists_ends (h : g.Follows set) (hl : l ∈ g.links) :
    ∃ s ∈ set.sites, ∃ t ∈ set.sites, ∃ edge, g.keyOf? l.source = some s.key ∧
      g.keyOf? l.target = some t.key ∧ set.IsLink s t edge := by
  obtain ⟨n, hn⟩ := h.valid.exists_nameOf? hl
  obtain ⟨s, hs, t, ht, edge, hskey, htkey, hlink⟩ :=
    h.links n (mem_namedLinks_iff.mpr ⟨l, hl, hn⟩)
  obtain ⟨hsource, htarget, -⟩ := nameOf?_eq_some_iff.mp hn
  rw [hskey] at hsource
  rw [htkey] at htarget
  exact ⟨s, hs, t, ht, edge, hsource, htarget, hlink⟩

/-- The declaration that an edge enters is the one of its target. -/
theorem exists_source (hu : set.UniqueKeys) (h : g.Follows set) (hmem : (id, e) ∈ g.elements)
    (hs : s ∈ set.sites) (hkey : s.key = e.key) (hl : l ∈ g.incoming id) :
    ∃ s' ∈ set.sites, ∃ edge, g.keyOf? l.source = some s'.key ∧ set.IsLink s' s edge := by
  obtain ⟨hl, htarget⟩ := List.mem_filter.mp hl
  obtain ⟨s', hs', t, ht, edge, hskey, htkey, hlink⟩ := h.exists_ends hl
  rw [beq_iff_eq.mp htarget, h.valid.keyOf?_of_mem hmem, ← hkey] at htkey
  obtain rfl := hu.eq_of_key hs ht (Option.some.inj htkey)
  exact ⟨s', hs', edge, hskey, hlink⟩

/-- The declaration that an edge leaves is the one of its source. -/
theorem exists_target (hu : set.UniqueKeys) (h : g.Follows set) (hmem : (id, e) ∈ g.elements)
    (hs : s ∈ set.sites) (hkey : s.key = e.key) (hl : l ∈ g.outgoing id) :
    ∃ t ∈ set.sites, ∃ edge, g.keyOf? l.target = some t.key ∧ set.IsLink s t edge := by
  obtain ⟨hl, hsource⟩ := List.mem_filter.mp hl
  obtain ⟨s', hs', t, ht, edge, hskey, htkey, hlink⟩ := h.exists_ends hl
  rw [beq_iff_eq.mp hsource, h.valid.keyOf?_of_mem hmem, ← hkey] at hskey
  obtain rfl := hu.eq_of_key hs hs' (Option.some.inj hskey)
  exact ⟨t, ht, edge, htkey, hlink⟩

/-- The edge of ownership into a vertex is there. -/
theorem exists_owner (h : g.Follows set) (hmem : (id, e) ∈ g.elements) (hs : s ∈ set.sites)
    (hkey : s.key = e.key) (howner : s.owner? = some owner) :
    ∃ l ∈ g.incoming id, g.keyOf? l.source = some owner.key := by
  have hthere : s.key ∈ g.keys := mem_keys_iff.mpr ⟨id, e, hmem, hkey.symm⟩
  obtain ⟨n, hn, hsource, htarget⟩ := h.owners s hs owner howner hthere
  obtain ⟨l, hl, hname⟩ := mem_namedLinks_iff.mp hn
  obtain ⟨hskey, htkey, -⟩ := nameOf?_eq_some_iff.mp hname
  rw [hsource] at hskey
  rw [htarget, hkey] at htkey
  exact ⟨l, List.mem_filter.mpr ⟨hl, beq_iff_eq.mpr
    (h.valid.eq_of_keyOf? htkey (h.valid.keyOf?_of_mem hmem))⟩, hskey⟩

/-- Two edges with the same ends are the same. -/
theorem eq_of_ends (h : g.Follows set) {l' : Link} (hl : l ∈ g.links) (hl' : l' ∈ g.links)
    (hsource : l.source = l'.source) (htarget : l.target = l'.target) : l = l' := by
  have hnodup : (g.links.map fun l => (g.keyOf? l.source, g.keyOf? l.target)).Nodup := by
    have hends := h.ends
    rw [List.Nodup, List.pairwise_map, namedLinks, List.pairwise_filterMap] at hends
    rw [List.Nodup, List.pairwise_map]
    -- Links with the same ends would have names with the same ends.
    refine hends.imp_of_mem fun {a b} ha hb hne heq => ?_
    obtain ⟨n, hn⟩ := h.valid.exists_nameOf? ha
    obtain ⟨n', hn'⟩ := h.valid.exists_nameOf? hb
    refine hne n hn n' hn' ?_
    obtain ⟨hs, ht, -⟩ := nameOf?_eq_some_iff.mp hn
    obtain ⟨hs', ht', -⟩ := nameOf?_eq_some_iff.mp hn'
    rw [hs, hs', ht, ht', Prod.mk.injEq, Option.some.injEq, Option.some.injEq] at heq
    exact Prod.ext heq.1 heq.2
  refine List.inj_on_of_nodup_map hnodup hl hl' ?_
  rw [hsource, htarget]

/-- If only one vertex has chosen edges into another, it has one of them. -/
theorem filter_incoming_eq (h : g.Follows set) {p : Link → Bool} (hl : l ∈ g.incoming id)
    (hp : p l = true) (hkey : g.keyOf? l.source = some key)
    (honly : ∀ l' ∈ g.incoming id, p l' = true → g.keyOf? l'.source = some key) :
    (g.incoming id).filter p = [l] := by
  have hnodup : ((g.incoming id).filter p).Nodup :=
    ((List.Nodup.of_map _ h.valid.edgeIds.nodup).filter _).filter _
  refine List.perm_singleton.mp ((List.perm_ext_iff_of_nodup hnodup
    (List.nodup_singleton l)).mpr fun l' => ?_)
  rw [List.mem_filter, List.mem_singleton]
  constructor
  · rintro ⟨hl', hp'⟩
    have hsource := h.valid.eq_of_keyOf? (honly l' hl' hp') hkey
    obtain ⟨hl, htarget⟩ := List.mem_filter.mp hl
    obtain ⟨hl', htarget'⟩ := List.mem_filter.mp hl'
    exact h.eq_of_ends hl' hl hsource
      ((beq_iff_eq.mp htarget').trans (beq_iff_eq.mp htarget).symm)
  · rintro rfl
    exact ⟨hl, hp⟩

theorem kindOf?_of_keyOf? (hkey : g.keyOf? id = some key) : g.kindOf? id = some key.kind := by
  obtain ⟨e, he, rfl⟩ := Option.map_eq_some_iff.mp hkey
  rw [kindOf?, he]
  rfl

/-! ## What owns what -/

/-- A field is entered from its owner. -/
theorem ownersOf_field (hu : set.UniqueKeys) (h : g.Follows set) (hmem : (id, e) ∈ g.elements)
    {f : FieldSite} (hf : f ∈ set.fieldSites) (hkey : f.key = e.key)
    (howner : (Site.field f).owner? = some owner) :
    ∃ l, g.ownersOf id = [l] ∧ g.keyOf? l.source = some owner.key := by
  have hs := FileSet.field_mem_sites.mpr hf
  obtain ⟨l, hl, hsource⟩ := h.exists_owner hmem hs hkey howner
  refine ⟨l, h.filter_incoming_eq hl ?_ hsource fun l' hl' hp => ?_, hsource⟩
  · rw [kindOf?_of_keyOf? hsource]
    rcases Site.kind_owner howner with hkind | hkind <;> rw [hkind] <;> rfl
  · obtain ⟨s', hs', edge, hsource', hlink⟩ := h.exists_source hu hmem hs hkey hl'
    rw [kindOf?_of_keyOf? hsource'] at hp
    cases hlink with
    | owner _ howner' =>
        rw [Option.some.inj (howner.symm.trans howner')]
        exact hsource'
    | owned => cases hp

/-- A group is entered from its message. -/
theorem parentsOf_group (hu : set.UniqueKeys) (h : g.Follows set) (hmem : (id, e) ∈ g.elements)
    {G : GroupSite} (hG : G ∈ set.groupSites) (hkey : G.key = e.key) :
    ∃ l, g.parentsOf id = [l] ∧ g.keyOf? l.source = some G.message.key := by
  have hs := FileSet.group_mem_sites.mpr hG
  obtain ⟨l, hl, hsource⟩ := h.exists_owner hmem hs hkey rfl
  refine ⟨l, h.filter_incoming_eq hl ?_ hsource fun l' hl' hp => ?_, hsource⟩
  · rw [kindOf?_of_keyOf? hsource]
    rfl
  · obtain ⟨s', hs', edge, hsource', hlink⟩ := h.exists_source hu hmem hs hkey hl'
    rw [kindOf?_of_keyOf? hsource'] at hp
    cases hlink with
    | owner _ howner =>
        obtain rfl := Option.some.inj howner
        exact hsource'
    | owned => cases hp

/-- A member of a group is entered from the group only. -/
theorem source_of_member (hu : set.UniqueKeys) (h : g.Follows set) (hmem : (id, e) ∈ g.elements)
    {f : FieldSite} (hf : f ∈ set.fieldSites) (hkey : f.key = e.key) {G : GroupSite}
    (hgroup : f.group? = some G) (hl : l ∈ g.incoming id) :
    g.keyOf? l.source = some G.key := by
  obtain ⟨s', hs', edge, hsource, hlink⟩ :=
    h.exists_source hu hmem (FileSet.field_mem_sites.mpr hf) hkey hl
  cases hlink with
  | owner _ howner =>
      rw [Site.owner?, hgroup] at howner
      obtain rfl := Option.some.inj howner
      exact hsource
  | owned _ _ _ _ howned =>
      -- What a message directly owns is in no group.
      rcases MessageSite.mem_owned_iff.mp howned with ⟨f', -, hnone, heq⟩ | ⟨G', -, heq⟩
      · rw [← Site.field.inj heq, hgroup] at hnone
        cases hnone
      · cases heq

/-- A message leads to what it declares. -/
theorem target_of_message (hu : set.UniqueKeys) (h : g.Follows set) (hmem : (id, e) ∈ g.elements)
    {m : MessageSite} (hm : m ∈ set.messageSites) (hkey : m.key = e.key)
    (hl : l ∈ g.outgoing id) :
    (∃ f ∈ m.fields, g.keyOf? l.target = some f.key) ∨
      ∃ G ∈ m.groups, g.keyOf? l.target = some G.key := by
  obtain ⟨t, ht, edge, htarget, hlink⟩ :=
    h.exists_target hu hmem (FileSet.message_mem_sites.mpr hm) hkey hl
  cases hlink with
  | owner _ howner =>
      cases t with
      | message m => cases howner
      | enum e => cases howner
      | group G =>
          obtain rfl := Site.message.inj (Option.some.inj howner)
          exact Or.inr ⟨G, (FileSet.mem_groupSites_iff.mp (FileSet.group_mem_sites.mp ht)).2,
            htarget⟩
      | field f =>
          rw [Site.owner?] at howner
          split at howner
          · cases howner
          · obtain rfl := Site.message.inj (Option.some.inj howner)
            exact Or.inl ⟨f, (FileSet.mem_fieldSites_iff.mp (FileSet.field_mem_sites.mp ht)).2,
              htarget⟩

/-- In a store that follows a set everything is entered from its owner. -/
theorem owned (hu : set.UniqueKeys) (h : g.Follows set) : g.Owned set := by
  have hsite {id : VertexId} {e : Element} (hmem : (id, e) ∈ g.elements) :
      ∃ s ∈ set.sites, s.key = e.key := h.keys _ (mem_keys_iff.mpr ⟨id, e, hmem, rfl⟩)
  constructor
  case field =>
    intro id e hmem hkind
    obtain ⟨s, hs, hkey⟩ := hsite hmem
    obtain ⟨f, rfl⟩ := Site.exists_field ((congrArg ElementKey.kind hkey).trans hkind)
    obtain ⟨owner, howner⟩ := Site.exists_owner f
    obtain ⟨l, hl, hsource⟩ := h.ownersOf_field hu hmem (FileSet.field_mem_sites.mp hs) hkey howner
    exact ⟨f, FileSet.field_mem_sites.mp hs, hkey, owner, l, howner, hl, hsource⟩
  case group =>
    intro id e hmem hkind
    obtain ⟨s, hs, hkey⟩ := hsite hmem
    obtain ⟨G, rfl⟩ := Site.exists_group ((congrArg ElementKey.kind hkey).trans hkind)
    exact ⟨G, FileSet.group_mem_sites.mp hs, hkey,
      h.parentsOf_group hu hmem (FileSet.group_mem_sites.mp hs) hkey⟩
  case member =>
    exact fun id e hmem f hf hkey G hgroup l hl => h.source_of_member hu hmem hf hkey hgroup hl
  case message =>
    intro id e hmem hkind
    obtain ⟨s, hs, hkey⟩ := hsite hmem
    obtain ⟨m, rfl⟩ := Site.exists_message ((congrArg ElementKey.kind hkey).trans hkind)
    exact ⟨m, FileSet.message_mem_sites.mp hs, hkey, fun l hl =>
      h.target_of_message hu hmem (FileSet.message_mem_sites.mp hs) hkey hl⟩

end Follows

end Store

/-! ## The stores that are built -/

/-- A store that holds the declarations and the edges of a set follows it. -/
theorem Store.Holds.follows {set : FileSet} {options : ElementKey → List CustomOption} {g : Store}
    (hu : set.UniqueKeys) (h : g.Holds (set.elementsWith options) set.links) : g.Follows set where
  valid := h.valid
  keys := by
    intro key hkey
    rw [h.keys_perm.mem_iff, set.map_key_elementsWith] at hkey
    exact List.mem_map.mp hkey
  links := by
    intro n hn
    obtain ⟨s, hs, t, ht, hsource, htarget, hlink⟩ := hu.isLink (h.links.mem_iff.mp hn)
    exact ⟨s, hs, t, ht, n.edge, hsource, htarget, hlink⟩
  owners := by
    intro s hs owner howner _
    exact ⟨_, h.links.mem_iff.mpr (ownerLink_mem_links hs howner), rfl, rfl⟩
  ends := (h.links.map _).nodup_iff.mpr hu.nodup_ends

namespace Drawn

open Store

variable {set : FileSet} {options : ElementKey → List CustomOption} {g : Store}

/-- The graph of a set follows the set. -/
theorem follows (h : Drawn set options g) : g.Follows set :=
  h.holds.follows h.names.uniqueKeys

/-- A link between declarations outside the wrappers file is outside. -/
theorem isOutside_of_sites (h : Drawn set options g) {s t : Site} (hs : s ∈ set.sites)
    (ht : t ∈ set.sites) (hsource : ¬ s.isWrapped) (htarget : ¬ t.isWrapped) (edge : Edge) :
    g.isOutside ⟨s.key, t.key, edge⟩ = true := by
  have hany {s : Site} (hs : s ∈ set.sites) (hout : ¬ s.isWrapped) :
      (g.ofKey? s.key).any (fun e => !Store.isWrapped e) = true := by
    obtain ⟨id, hid⟩ := h.exists_id hs
    have hfound := h.holds.valid.ofKey?_of_mem hid
    rw [s.key_elementWith] at hfound
    rw [hfound, Option.any_some, Bool.not_eq_true', ← Bool.not_eq_true, isWrapped_elementWith]
    exact hout
  rw [Store.isOutside, hany hs hsource, hany ht htarget]
  rfl

/-- What flattening leaves are the declarations outside the wrappers file. -/
theorem mem_keys_flatten_iff (h : Drawn set options g) {s : Site} (hs : s ∈ set.sites) :
    s.key ∈ g.flatten.keys ↔ ¬ s.isWrapped := by
  rw [h.flattenable.flattened.keys.mem_iff, List.mem_map]
  constructor
  · rintro ⟨⟨id, e⟩, hentry, hsame⟩
    obtain ⟨hmem, hout⟩ := List.mem_filter.mp hentry
    obtain ⟨s', hs', rfl⟩ := h.exists_site hmem
    obtain rfl := h.names.uniqueKeys.eq_of_key hs' hs ((s'.key_elementWith _ _).symm.trans hsame)
    rwa [Bool.not_eq_true', ← Bool.not_eq_true, isWrapped_elementWith] at hout
  · intro hout
    obtain ⟨id, hid⟩ := h.exists_id hs
    refine ⟨_, List.mem_filter.mpr ⟨hid, ?_⟩, s.key_elementWith _ _⟩
    rwa [Bool.not_eq_true', ← Bool.not_eq_true, isWrapped_elementWith]

/-- The graph of a set still follows the set when wrapper messages are flattened. -/
theorem follows_flatten (h : Drawn set options g) : g.flatten.Follows set := by
  have hflat := h.flattenable.flattened
  have hvalid := h.flattenable.flatten_holds.1.valid
  have hfollows := h.follows
  constructor
  case valid => exact hvalid
  case keys =>
    intro key hkey
    obtain ⟨entry, hentry, rfl⟩ := List.mem_map.mp (hflat.keys.mem_iff.mp hkey)
    exact hfollows.keys _ (List.mem_map_of_mem (List.mem_of_mem_filter hentry))
  case links =>
    intro n hn
    obtain ⟨old, hold, rfl⟩ := List.mem_map.mp (hflat.links.mem_iff.mp hn)
    rw [source_relabel, target_relabel]
    exact hfollows.links old (List.mem_of_mem_filter hold)
  case owners =>
    intro s hs owner howner hkey
    have hout := (h.mem_keys_flatten_iff hs).mp hkey
    -- The owner stands in the same file, so the edge from it is between vertices that stay.
    have howned : ¬ owner.isWrapped := by
      rwa [Site.isWrapped, home_of_owner howner]
    have hlink := h.holds.links.mem_iff.mpr (ownerLink_mem_links hs howner)
    have houtside := h.isOutside_of_sites (owner_mem_sites hs howner) hs howned hout
      (Edge.into (s.element set.mapEntries))
    exact ⟨_, hflat.links.mem_iff.mpr (List.mem_map_of_mem (List.mem_filter.mpr
      ⟨hlink, houtside⟩)), source_relabel _ _, target_relabel _ _⟩
  case ends => exact (hflat.links.map _).nodup_iff.mpr h.flattenable.nodup_ends_relabelled

end Drawn

/-- A finished graph has the given store, flattened if asked for, and the vertex
that is selected in it as its root. -/
theorem RootedGraph.of_build {set : FileSet} {options : GraphOptions} {g : Store}
    {r : RootedGraph} (hbuild : RootedGraph.build set options g = .ok r) :
    r.store = (if options.flattenWrappers then g.flatten else g) ∧
      set.selectRoot options r.store = .ok r.rootId ∧
      r.store.element? r.rootId = some r.root := by
  rw [build, finish] at hbuild
  split at hbuild
  · cases hbuild
  · next id hselect =>
    split at hbuild
    · cases hbuild
    · next root hroot =>
      obtain rfl := Except.ok.inj hbuild
      exact ⟨rfl, hselect, hroot⟩

theorem RootedGraph.store_of_build {set : FileSet} {options : GraphOptions} {g : Store}
    {r : RootedGraph} (hbuild : RootedGraph.build set options g = .ok r) :
    r.store = if options.flattenWrappers then g.flatten else g :=
  (of_build hbuild).1

/-- A finished graph follows its set. -/
theorem RootedGraph.follows_of_attach {set : FileSet} {options : GraphOptions} {g : Store} {n : Nat}
    {encoded : List (ElementKey × List UInt8)} {r : RootedGraph} (h : set.UniqueNames)
    (hwrappers : set.PlainWrappers)
    (hattach : Draft.attach (Registry.ofSet set) encoded (Draft.ofSet set).store = .ok (g, n))
    (hbuild : RootedGraph.build set options g = .ok r) : r.store.Follows set := by
  obtain ⟨opts, hdrawn⟩ := drawn_of_attach h hwrappers hattach
  rw [store_of_build hbuild]
  split
  · exact hdrawn.follows_flatten
  · exact hdrawn.follows

/-- A graph is built if the root that is named is there. -/
theorem RootedGraph.exists_finish (set : FileSet) (options : GraphOptions) {g : Store}
    {name : String} (h : g.Valid) (hname : options.messageName = some name)
    (hkey : ElementKey.message name ∈ g.keys) : ∃ r, RootedGraph.finish set options g = .ok r := by
  obtain ⟨id, e, hmem, hsame⟩ := Store.mem_keys_iff.mp hkey
  have hfind : g.find? (.message name) = some id := h.find?_eq_some_iff.mpr ⟨e, hmem, hsame⟩
  have hroot : set.selectRoot options g = .ok id := by
    rw [FileSet.selectRoot, hname]
    show g.findMessage name = .ok id
    rw [Store.findMessage, hfind]
  refine ⟨⟨g, id, e, Registry.ofSet set⟩, ?_⟩
  rw [finish, hroot]
  simp only [h.element?_eq_some_iff.mpr hmem]

/-- In every graph that is built from a set everything is entered from its owner,
whether wrapper messages are flattened or not. -/
theorem ownership_invariant {set : FileSet} {options : GraphOptions} {r : RootedGraph}
    (h : set.UniqueNames) (hwrappers : set.PlainWrappers)
    (hbuild : RootedGraph.ofSet set options = .ok r) : r.store.Owned set := by
  have hattach : Draft.attach (Registry.ofSet set) [] (Draft.ofSet set).store =
      .ok ((Draft.ofSet set).store, 0) := rfl
  obtain ⟨opts, hdrawn⟩ := drawn_of_attach h hwrappers hattach
  rw [RootedGraph.store_of_build hbuild]
  split
  · exact hdrawn.follows_flatten.owned h.uniqueKeys
  · exact hdrawn.follows.owned h.uniqueKeys

/-- The graph of the shop, with its wrapper message flattened. -/
theorem ownership_invariant_shopSet :
    shopSet.UniqueNames ∧ shopSet.PlainWrappers ∧
      ∃ r, RootedGraph.ofSet shopSet { messageName := some "shop.v2.Cart" } = .ok r ∧
        r.store.Owned shopSet := by
  have hnames : shopSet.UniqueNames := by decide +kernel
  have hwrappers : shopSet.PlainWrappers := by decide +kernel
  obtain ⟨opts, hdrawn⟩ := drawn_of_attach hnames hwrappers
    (rfl : Draft.attach (Registry.ofSet shopSet) [] (Draft.ofSet shopSet).store = .ok (_, 0))
  obtain ⟨m, hm, hname, hfile⟩ : ∃ m ∈ shopSet.messageSites, m.fullName = "shop.v2.Cart" ∧
      m.file.name ≠ wrappersFile := by decide +kernel
  have hkey : ElementKey.message "shop.v2.Cart" ∈ (Draft.ofSet shopSet).store.flatten.keys := by
    obtain ⟨id, hid⟩ := hdrawn.exists_id (FileSet.message_mem_sites.mpr hm)
    refine hdrawn.flattenable.flattened.keys.mem_iff.mpr (List.mem_map.mpr
      ⟨_, List.mem_filter.mpr ⟨hid, ?_⟩, ?_⟩)
    · rw [Bool.not_eq_true', ← Bool.not_eq_true, Drawn.isWrapped_elementWith]
      exact hfile
    · rw [Site.key_elementWith, ← hname]
      rfl
  obtain ⟨r, hr⟩ := RootedGraph.exists_finish shopSet { messageName := some "shop.v2.Cart" }
    hdrawn.flattenable.flatten_holds.1.valid rfl hkey
  exact ⟨hnames, hwrappers, r, hr, ownership_invariant hnames hwrappers hr⟩

end SchemaGraph

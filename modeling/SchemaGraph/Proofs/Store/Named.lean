import SchemaGraph.Proofs.Store.Valid

/-!
# Stores up to numbering

What a store says once the numbers of its vertices and links are forgotten: a
list of elements, and a list of links whose ends are named by identity.

* `Store.namedLinks` gives the links of a store by the identities of their ends;
* `Store.Holds` says that a valid store holds given elements and given links, in
  any order and with any numbers;
* `Store.Keeps` says that a later store gives every number the same identity.

Every operation that construction uses is described by what it adds to the two
lists.  Removal is not described here.
-/

namespace SchemaGraph

namespace Store

/-- The identity of the element with a number. -/
def keyOf? (g : Store) (id : VertexId) : Option ElementKey := (g.element? id).map Element.key

/-- A link by the identities of its ends. -/
def nameOf? (g : Store) (l : Link) : Option PendingLink :=
  match g.keyOf? l.source, g.keyOf? l.target with
  | some source, some target => some ⟨source, target, l.edge⟩
  | _, _ => none

/-- The links by the identities of their ends. -/
def namedLinks (g : Store) : List PendingLink := g.links.filterMap g.nameOf?

/-- A valid store holds exactly these elements and these links. -/
structure Holds (g : Store) (elements : List Element) (links : List PendingLink) : Prop where
  valid : g.Valid
  elements : (g.elements.map Prod.snd).Perm elements
  links : g.namedLinks.Perm links

/-- Every number that names an element names the same identity later. -/
def Keeps (g g' : Store) : Prop :=
  ∀ id key, g.keyOf? id = some key → g'.keyOf? id = some key

variable {g g' g'' : Store} {id source target : VertexId} {key : ElementKey} {e : Element}
variable {es es' : List Element} {ls ls' : List PendingLink}

theorem Keeps.refl (g : Store) : g.Keeps g := fun _ _ h => h

theorem Keeps.trans (h : g.Keeps g') (h' : g'.Keeps g'') : g.Keeps g'' :=
  fun id key hkey => h' id key (h id key hkey)

/-! ## Names -/

theorem Valid.keyOf?_eq_some_iff (h : g.Valid) :
    g.keyOf? id = some key ↔ ∃ e, (id, e) ∈ g.elements ∧ e.key = key := by
  simp only [keyOf?, Option.map_eq_some_iff, h.element?_eq_some_iff]

theorem Valid.keyOf?_eq_some_iff_find? (h : g.Valid) :
    g.keyOf? id = some key ↔ g.find? key = some id := by
  rw [h.keyOf?_eq_some_iff, h.find?_eq_some_iff]

theorem Valid.keyOf?_of_mem (h : g.Valid) (hmem : (id, e) ∈ g.elements) :
    g.keyOf? id = some e.key :=
  h.keyOf?_eq_some_iff.mpr ⟨e, hmem, rfl⟩

theorem Valid.mem_ids_of_keyOf? (h : g.Valid) (hkey : g.keyOf? id = some key) : id ∈ g.ids := by
  obtain ⟨e, hmem, -⟩ := h.keyOf?_eq_some_iff.mp hkey
  exact mem_ids_iff.mpr ⟨e, hmem⟩

/-- An identity names one number. -/
theorem Valid.eq_of_keyOf? (h : g.Valid) {id' : VertexId} (hkey : g.keyOf? id = some key)
    (hkey' : g.keyOf? id' = some key) : id = id' :=
  Option.some.inj ((h.keyOf?_eq_some_iff_find?.mp hkey).symm.trans
    (h.keyOf?_eq_some_iff_find?.mp hkey'))

theorem nameOf?_eq_some_iff {l : Link} {n : PendingLink} :
    g.nameOf? l = some n ↔
      g.keyOf? l.source = some n.source ∧ g.keyOf? l.target = some n.target ∧ l.edge = n.edge := by
  obtain ⟨source, target, edge⟩ := n
  cases hsource : g.keyOf? l.source <;> cases htarget : g.keyOf? l.target <;>
    simp [nameOf?, hsource, htarget]

/-- In a valid store every link has a name. -/
theorem Valid.exists_nameOf? (h : g.Valid) {l : Link} (hl : l ∈ g.links) :
    ∃ n, g.nameOf? l = some n := by
  obtain ⟨hsource, htarget⟩ := h.ends l hl
  obtain ⟨s, hs⟩ := mem_ids_iff.mp hsource
  obtain ⟨t, ht⟩ := mem_ids_iff.mp htarget
  exact ⟨⟨s.key, t.key, l.edge⟩,
    nameOf?_eq_some_iff.mpr ⟨h.keyOf?_of_mem hs, h.keyOf?_of_mem ht, rfl⟩⟩

theorem mem_namedLinks_iff {n : PendingLink} :
    n ∈ g.namedLinks ↔ ∃ l ∈ g.links, g.nameOf? l = some n := List.mem_filterMap

/-- Names stay as long as the identities of numbers do. -/
theorem Valid.nameOf?_of_keeps (h : g.Valid) (hkeeps : g.Keeps g') {l : Link} (hl : l ∈ g.links) :
    g'.nameOf? l = g.nameOf? l := by
  obtain ⟨n, hn⟩ := h.exists_nameOf? hl
  obtain ⟨hsource, htarget, hedge⟩ := nameOf?_eq_some_iff.mp hn
  rw [hn]
  exact nameOf?_eq_some_iff.mpr ⟨hkeeps _ _ hsource, hkeeps _ _ htarget, hedge⟩

theorem Valid.namedLinks_of_keeps (h : g.Valid) (hkeeps : g.Keeps g')
    (hlinks : g'.links = g.links) : g'.namedLinks = g.namedLinks := by
  rw [namedLinks, namedLinks, hlinks]
  exact List.filterMap_congr fun l hl => h.nameOf?_of_keeps hkeeps hl

/-- Choosing links by name is choosing them by what the name says. -/
theorem filter_namedLinks {p : PendingLink → Bool} {q : Link → Bool}
    (hpq : ∀ l ∈ g.links, ∀ n, g.nameOf? l = some n → p n = q l) :
    g.namedLinks.filter p = (g.links.filter q).filterMap g.nameOf? := by
  rw [namedLinks, List.filter_filterMap, List.filterMap_filter]
  refine List.filterMap_congr fun l hl => ?_
  cases hn : g.nameOf? l with
  | none => simp
  | some n =>
      rw [Option.filter_some, hpq l hl n hn]

theorem Valid.namedLinks_from (h : g.Valid) (hkey : g.keyOf? id = some key) :
    g.namedLinks.filter (fun n => n.source == key) = (g.outgoing id).filterMap g.nameOf? := by
  refine filter_namedLinks fun l hl n hn => ?_
  obtain ⟨hsource, -, -⟩ := nameOf?_eq_some_iff.mp hn
  rw [Bool.eq_iff_iff, beq_iff_eq, beq_iff_eq]
  constructor
  · exact fun heq => h.eq_of_keyOf? (heq ▸ hsource) hkey
  · exact fun heq => Option.some.inj ((heq ▸ hsource).symm.trans hkey)

/-! ## Operations -/

theorem Holds.perm (h : g.Holds es ls) (hes : es.Perm es') (hls : ls.Perm ls') :
    g.Holds es' ls' :=
  ⟨h.valid, h.elements.trans hes, h.links.trans hls⟩

theorem holds_empty : ({} : Store).Holds [] [] :=
  ⟨valid_empty, List.Perm.refl _, List.Perm.refl _⟩

theorem Holds.mem (h : g.Holds es ls) (hmem : (id, e) ∈ g.elements) : e ∈ es :=
  h.elements.mem_iff.mp (List.mem_map_of_mem hmem)

theorem Holds.exists_id (h : g.Holds es ls) (hmem : e ∈ es) : ∃ id, (id, e) ∈ g.elements := by
  obtain ⟨entry, hentry, rfl⟩ := List.mem_map.mp (h.elements.mem_iff.mpr hmem)
  exact ⟨entry.1, hentry⟩

theorem Holds.exists_keyOf? (h : g.Holds es ls) (hkey : key ∈ es.map Element.key) :
    ∃ id, g.keyOf? id = some key := by
  obtain ⟨e, he, rfl⟩ := List.mem_map.mp hkey
  obtain ⟨id, hid⟩ := h.exists_id he
  exact ⟨id, h.valid.keyOf?_of_mem hid⟩

/-- An element that is held is found by its identity. -/
theorem Holds.exists_find? (h : g.Holds es ls) (he : e ∈ es) :
    ∃ id, g.find? e.key = some id ∧ g.keyOf? id = some e.key ∧ g.element? id = some e := by
  obtain ⟨id, hid⟩ := h.exists_id he
  exact ⟨id, h.valid.find?_eq_some_iff.mpr ⟨e, hid, rfl⟩, h.valid.keyOf?_of_mem hid,
    h.valid.element?_eq_some_iff.mpr hid⟩

theorem Holds.keys_perm (h : g.Holds es ls) : g.keys.Perm (es.map Element.key) := by
  have hmap := h.elements.map Element.key
  rwa [List.map_map] at hmap

theorem Holds.nodup_keys (h : g.Holds es ls) : (es.map Element.key).Nodup :=
  h.keys_perm.nodup_iff.mp h.valid.keys

/-- Among the elements held, an identity names one. -/
theorem Holds.eq_of_key (h : g.Holds es ls) {a b : Element} (ha : a ∈ es) (hb : b ∈ es)
    (hkey : a.key = b.key) : a = b :=
  List.inj_on_of_nodup_map h.nodup_keys ha hb hkey

/-- The element behind an identity that is held. -/
theorem Holds.element?_of_keyOf? (h : g.Holds es ls) (he : e ∈ es)
    (hkey : g.keyOf? id = some e.key) : g.element? id = some e := by
  obtain ⟨e', hmem, hsame⟩ := h.valid.keyOf?_eq_some_iff.mp hkey
  rw [← h.eq_of_key (h.mem hmem) he hsame]
  exact h.valid.element?_eq_some_iff.mpr hmem

theorem Holds.find?_eq_none (h : g.Holds es ls) (hkey : key ∉ es.map Element.key) :
    g.find? key = none :=
  h.valid.find?_eq_none_iff.mpr fun hmem => hkey (h.keys_perm.mem_iff.mp hmem)

/-- The edges that leave a vertex, with the elements they lead to, are the links
held that have the vertex as their source. -/
theorem Holds.map_outgoing (h : g.Holds es ls) (hkey : g.keyOf? id = some key)
    {targets : List (Element × Edge)}
    (htargets : (ls.filter fun n => n.source == key).Perm
      (targets.map fun t => ⟨key, t.1.key, t.2⟩))
    (hmem : ∀ t ∈ targets, t.1 ∈ es) :
    ((g.outgoing id).map fun l => (g.element? l.target, l.edge)).Perm
      (targets.map fun t => (some t.1, t.2)) := by
  have hnamed : (g.outgoing id).map (fun l => (g.element? l.target, l.edge)) =
      ((g.outgoing id).filterMap g.nameOf?).map fun n =>
        ((g.find? n.target).bind g.element?, n.edge) := by
    rw [List.map_filterMap, ← List.filterMap_eq_map]
    refine List.filterMap_congr fun l hl => ?_
    obtain ⟨n, hn⟩ := h.valid.exists_nameOf? (List.mem_of_mem_filter hl)
    obtain ⟨-, htarget, hedge⟩ := nameOf?_eq_some_iff.mp hn
    rw [hn, Option.map_some, h.valid.keyOf?_eq_some_iff_find?.mp htarget, ← hedge]
    rfl
  have helements : (targets.map fun t => (⟨key, t.1.key, t.2⟩ : PendingLink)).map
        (fun n => ((g.find? n.target).bind g.element?, n.edge)) =
      targets.map fun t => (some t.1, t.2) := by
    rw [List.map_map]
    refine List.map_congr_left fun t ht => ?_
    obtain ⟨i, hfind, -, helement⟩ := h.exists_find? (hmem t ht)
    show ((g.find? t.1.key).bind g.element?, t.2) = _
    rw [hfind, Option.bind_some, helement]
  rw [hnamed, ← helements, ← h.valid.namedLinks_from hkey]
  exact ((h.links.filter _).trans htargets).map _

theorem keeps_addElement (h : g.Valid) (e : Element) : g.Keeps (g.addElement e).2 := by
  cases hfind : g.find? e.key with
  | some id =>
      rw [addElement_of_find? hfind]
      exact Keeps.refl g
  | none =>
      intro id key hkey
      obtain ⟨e', hmem, rfl⟩ := h.keyOf?_eq_some_iff.mp hkey
      refine h.addElement.keyOf?_of_mem ?_
      exact (elements_addElement_perm hfind).mem_iff.mpr (List.mem_cons_of_mem _ hmem)

theorem links_addElement (g : Store) (e : Element) : (g.addElement e).2.links = g.links := by
  unfold addElement
  split <;> rfl

/-- An element with a new identity is added. -/
theorem Holds.addElement (h : g.Holds es ls) (hkey : e.key ∉ es.map Element.key) :
    (g.addElement e).2.Holds (e :: es) ls := by
  have hfind := h.find?_eq_none hkey
  refine ⟨h.valid.addElement, ?_, ?_⟩
  · exact ((elements_addElement_perm hfind).map Prod.snd).trans (h.elements.cons e)
  · rw [h.valid.namedLinks_of_keeps (keeps_addElement h.valid e) (links_addElement g e)]
    exact h.links

theorem Holds.keyOf?_addElement (h : g.Holds es ls) (hkey : e.key ∉ es.map Element.key) :
    (g.addElement e).2.keyOf? (g.addElement e).1 = some e.key := by
  have hfind := h.find?_eq_none hkey
  refine h.valid.addElement.keyOf?_of_mem ?_
  rw [(elements_addElement_perm hfind).mem_iff, addElement_of_find?_none hfind]
  exact List.mem_cons_self

theorem Holds.addLink (h : g.Holds es ls) {s t : ElementKey} (edge : Edge)
    (hsource : g.keyOf? source = some s) (htarget : g.keyOf? target = some t) :
    (g.addLink source target edge).2.Holds es (⟨s, t, edge⟩ :: ls) := by
  refine ⟨h.valid.addLink edge (h.valid.mem_ids_of_keyOf? hsource)
    (h.valid.mem_ids_of_keyOf? htarget), h.elements, ?_⟩
  have hname : g.nameOf? ⟨g.edgeIds.next, source, target, edge⟩ = some ⟨s, t, edge⟩ :=
    nameOf?_eq_some_iff.mpr ⟨hsource, htarget, rfl⟩
  show (List.filterMap g.nameOf? (⟨g.edgeIds.next, source, target, edge⟩ :: g.links)).Perm _
  rw [List.filterMap_cons_some hname]
  exact h.links.cons _

theorem keeps_update (g : Store) (id : VertexId) {change : Element → Element}
    (hchange : ∀ e, (change e).key = e.key) : g.Keeps (g.update id change) := by
  intro i key hkey
  suffices hsame : (g.update id change).keyOf? i = g.keyOf? i by rw [hsame, hkey]
  rw [keyOf?, keyOf?, element?, element?, elements_update]
  -- The look-up stops at the same entry, whose identity the change keeps.
  induction g.elements with
  | nil => rfl
  | cons entry rest ih =>
      obtain ⟨j, e⟩ := entry
      rw [List.map_cons, List.lookup_cons, List.lookup_cons]
      cases i == j with
      | false => exact ih
      | true =>
          show some (Element.key (if j = id then change e else e)) = some e.key
          split
          · rw [hchange]
          · rfl

/-- An element is changed in place. -/
theorem Holds.update (h : g.Holds (e :: es) ls) {change : Element → Element}
    (hid : g.keyOf? id = some e.key) (hchange : ∀ e, (change e).key = e.key) :
    (g.update id change).Holds (change e :: es) ls := by
  refine ⟨h.valid.update hchange, ?_, ?_⟩
  · obtain ⟨e', hmem, hkey⟩ := h.valid.keyOf?_eq_some_iff.mp hid
    obtain rfl : e' = e := h.eq_of_key (h.mem hmem) List.mem_cons_self hkey
    -- Only the entry with the number is changed, and it is where `e` is held.
    obtain ⟨before, after, hsplit⟩ := List.append_of_mem hmem
    have hnodup : ((before ++ (id, e') :: after).map Prod.fst).Nodup :=
      hsplit ▸ h.valid.vertexIds.nodup
    rw [List.map_append, List.map_cons, List.nodup_append, List.nodup_cons] at hnodup
    have hother (entries : List (VertexId × Element)) (hids : ∀ entry ∈ entries, entry.1 ≠ id) :
        entries.map (fun entry => if entry.1 = id then change entry.2 else entry.2) =
          entries.map Prod.snd :=
      List.map_congr_left fun entry hentry => if_neg (hids entry hentry)
    have hbefore := hother before fun entry hentry =>
      hnodup.2.2 _ (List.mem_map_of_mem hentry) _ List.mem_cons_self
    have hafter := hother after fun entry hentry heq => by
      have hmap : entry.1 ∈ after.map Prod.fst := List.mem_map_of_mem hentry
      exact hnodup.2.1.1 (heq ▸ hmap)
    have hrest : ((before ++ after).map Prod.snd).Perm es := by
      have hperm := h.elements
      rw [hsplit, List.map_append, List.map_cons] at hperm
      rw [List.map_append]
      exact (List.perm_middle.symm.trans hperm).cons_inv
    rw [elements_update, hsplit, List.map_map]
    simp only [Function.comp_def, List.map_append, List.map_cons, if_true, hbefore, hafter]
    rw [List.map_append] at hrest
    exact List.perm_middle.trans (hrest.cons _)
  · rw [h.valid.namedLinks_of_keeps (keeps_update g id hchange) rfl]
    exact h.links

end Store

end SchemaGraph

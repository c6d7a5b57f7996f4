import SchemaGraph.Proofs.Flatten.Requests
import SchemaGraph.Proofs.Store.Apply

/-!
# What flattening does to a store

`Store.Flattened` says, in terms of vertices and edges only, what a store becomes
when its wrapper messages are flattened:

* what is declared outside the wrappers file stays, and nothing else does;
* a field typed as a wrapper message is typed as the field that this wraps, and
  every other vertex stays as it is;
* the edges are those between vertices that stay, and an edge into a retyped
  field is labelled for the new type.

`Flattenable` lists what this needs of a store, and `Flattenable.flattened` is
proved from the requests of the plan.  Which stores are flattenable is not shown
here.
-/

namespace SchemaGraph

namespace Store

/-- The field that a wrapper message wraps, for a field that is typed as one. -/
def primitive? (g : Store) (e : Element) : Option Element :=
  if e.isMessageType then
    (g.elements.map Prod.snd).find? fun p =>
      p.kind == .field && isWrapped p && p.parent == e.nativeType
  else none

/-- The element with an identity. -/
def ofKey? (g : Store) (key : ElementKey) : Option Element := (g.find? key).bind g.element?

/-- Whether both ends of a link are declared outside the wrappers file. -/
def isOutside (g : Store) (n : PendingLink) : Bool :=
  (g.ofKey? n.source).any (fun e => !isWrapped e) && (g.ofKey? n.target).any fun e => !isWrapped e

/-- A link with the label that it has once wrapper messages are flattened. -/
def relabel (g : Store) (n : PendingLink) : PendingLink :=
  match (g.ofKey? n.target).bind g.primitive? with
  | some p => { n with edge := ⟨.field, p.pathType, false⟩ }
  | none => n

/-- The second store is the first one with wrapper messages flattened. -/
structure Flattened (g g' : Store) : Prop where
  /-- What is declared outside the wrappers file stays, and nothing else. -/
  keys : g'.keys.Perm
    ((g.elements.filter fun entry => !isWrapped entry.2).map fun entry => entry.2.key)
  /-- A vertex that stays and is not typed as a wrapper message is as it was. -/
  kept : ∀ id e, (id, e) ∈ g.elements → isWrapped e = false → g.primitive? e = none →
    (id, e) ∈ g'.elements
  /-- A field typed as a wrapper message has the types of what this wraps. -/
  retyped : ∀ id e p info, (id, e) ∈ g.elements → g.primitive? e = some p →
    e.info = .field info → ∃ id', (id',
      { e with
        pathType := p.pathType
        dataType := p.dataType
        info := .field { info with isMessageType := false } }) ∈ g'.elements
  /-- The edges between vertices that stay are there, with their new labels. -/
  links : g'.namedLinks.Perm ((g.namedLinks.filter g.isOutside).map g.relabel)

/-- What flattening needs of a store. -/
structure Flattenable (g : Store) : Prop where
  valid : g.Valid
  /-- The fields that wrapper messages lead to are wrapped themselves. -/
  primitives : ∀ id ∈ g.primitives, ∃ p, (id, p) ∈ g.elements ∧ isWrapped p = true
  /-- The fields that are replaced are those typed as wrapper messages. -/
  replaces : ∀ id e p, g.Replaces id e p ↔ (id, e) ∈ g.elements ∧ g.primitive? e = some p
  /-- A field typed as a wrapper message is not wrapped. -/
  outside : ∀ id e, (id, e) ∈ g.elements → g.primitive? e ≠ none → isWrapped e = false
  /-- A field typed as a wrapper message leads into the wrappers file only. -/
  leaving : ∀ l ∈ g.links, ∀ s t, (l.source, s) ∈ g.elements → (l.target, t) ∈ g.elements →
    g.primitive? s ≠ none → isWrapped t = true
  /-- Nothing in the wrappers file leads to a field typed as a wrapper message. -/
  entering : ∀ l ∈ g.links, ∀ s t, (l.source, s) ∈ g.elements → (l.target, t) ∈ g.elements →
    g.primitive? t ≠ none → isWrapped s = false
  /-- No two edges have the same ends. -/
  ends : (g.namedLinks.map fun n => (n.source, n.target)).Nodup

variable {g : Store} {id : VertexId} {e p : Element} {key : ElementKey} {n : PendingLink}

theorem Valid.ofKey?_eq_some_iff (h : g.Valid) :
    g.ofKey? key = some e ↔ ∃ id, (id, e) ∈ g.elements ∧ e.key = key := by
  rw [ofKey?, Option.bind_eq_some_iff]
  constructor
  · rintro ⟨id, hfind, helement⟩
    obtain ⟨e', hmem, hkey⟩ := h.find?_eq_some_iff.mp hfind
    obtain rfl := h.eq_of_id hmem (h.element?_eq_some_iff.mp helement)
    exact ⟨id, hmem, hkey⟩
  · rintro ⟨id, hmem, hkey⟩
    exact ⟨id, h.find?_eq_some_iff.mpr ⟨e, hmem, hkey⟩, h.element?_eq_some_iff.mpr hmem⟩

theorem Valid.ofKey?_of_mem (h : g.Valid) (hmem : (id, e) ∈ g.elements) :
    g.ofKey? e.key = some e :=
  h.ofKey?_eq_some_iff.mpr ⟨id, hmem, rfl⟩

/-- The ends of a link, by number and by name. -/
theorem Valid.exists_ends (h : g.Valid) {l : Link} (hl : l ∈ g.links) :
    ∃ s t, (l.source, s) ∈ g.elements ∧ (l.target, t) ∈ g.elements ∧
      g.nameOf? l = some ⟨s.key, t.key, l.edge⟩ := by
  obtain ⟨hsource, htarget⟩ := h.ends l hl
  obtain ⟨s, hs⟩ := mem_ids_iff.mp hsource
  obtain ⟨t, ht⟩ := mem_ids_iff.mp htarget
  exact ⟨s, t, hs, ht, nameOf?_eq_some_iff.mpr ⟨h.keyOf?_of_mem hs, h.keyOf?_of_mem ht, rfl⟩⟩

/-- A number that is given up names one link. -/
theorem Valid.eq_of_linkId (h : g.Valid) {l l' : Link} (hl : l ∈ g.links) (hl' : l' ∈ g.links)
    (hid : l.id = l'.id) : l = l' :=
  List.inj_on_of_nodup_map h.edgeIds.nodup hl hl' hid

theorem source_relabel (g : Store) (n : PendingLink) : (g.relabel n).source = n.source := by
  rw [relabel]
  split <;> rfl

theorem target_relabel (g : Store) (n : PendingLink) : (g.relabel n).target = n.target := by
  rw [relabel]
  split <;> rfl

namespace Flattenable

/-- Removed are the wrapped vertices and the fields typed as wrapper messages. -/
theorem mem_removedElements_iff (h : g.Flattenable) (hmem : (id, e) ∈ g.elements) :
    id ∈ g.planFlattening.removedElements ↔ isWrapped e = true ∨ g.primitive? e ≠ none := by
  rw [(answers_planFlattening g).removedElements, mem_flatteningRequests_iff]
  constructor
  · rintro (⟨entry, hentry, hwrapped, heq⟩ | ⟨_, _, _, link, _, heq⟩ |
      ⟨origin, e', p, hreplaces, heq | heq | ⟨link, _, hredirect⟩⟩)
    · obtain rfl := Request.removeElement.inj heq
      rw [h.valid.eq_of_id hmem hentry]
      exact Or.inl hwrapped
    · cases heq
    · obtain rfl := Request.removeElement.inj heq
      obtain ⟨horigin, hprimitive⟩ := (h.replaces _ _ _).mp hreplaces
      obtain rfl := h.valid.eq_of_id hmem horigin
      exact Or.inr (Option.ne_none_iff_exists'.mpr ⟨p, hprimitive⟩)
    · cases heq
    · rcases mem_redirectRequests_iff.mp hredirect with heq | ⟨_, _, heq⟩ <;>
        cases heq
  · rintro (hwrapped | hprimitive)
    · exact Or.inl ⟨(id, e), hmem, hwrapped, rfl⟩
    · obtain ⟨p, hp⟩ := Option.ne_none_iff_exists'.mp hprimitive
      exact Or.inr (Or.inr ⟨id, e, p, (h.replaces _ _ _).mpr ⟨hmem, hp⟩, Or.inl rfl⟩)

/-- A link between vertices that stay as they are is not removed. -/
theorem notMem_removedLinks (h : g.Flattenable) {l : Link} (hl : l ∈ g.links) {t : Element}
    (ht : (l.target, t) ∈ g.elements) (hout : isWrapped t = false) (hkept : g.primitive? t = none) :
    l.id ∉ g.planFlattening.removedLinks := by
  rw [(answers_planFlattening g).removedLinks, mem_flatteningRequests_iff]
  have hsame {link : Link} {i : VertexId} (hlink : link ∈ g.incoming i) (hid : l.id = link.id) :
      l.target = i := by
    obtain ⟨hlink, htarget⟩ := List.mem_filter.mp hlink
    rw [h.valid.eq_of_linkId hl hlink hid]
    exact beq_iff_eq.mp htarget
  have hcut {i : VertexId} {e p : Element} (hreplaces : g.Replaces i e p) : l.target ≠ i := by
    rintro rfl
    obtain ⟨hmem, hprimitive⟩ := (h.replaces _ _ _).mp hreplaces
    rw [h.valid.eq_of_id hmem ht, hkept] at hprimitive
    cases hprimitive
  rintro (⟨_, _, _, heq⟩ | ⟨primitive, hprimitive, _, link, hlink, heq⟩ |
    ⟨origin, e, p, hreplaces, heq | heq | ⟨link, hlink, hredirect⟩⟩)
  · cases heq
  · -- A link that is cut off from a primitive leads into the wrappers file.
    obtain ⟨p, hp, hwrapped⟩ := h.primitives primitive hprimitive
    rw [← hsame hlink (Request.removeLink.inj heq)] at hp
    rw [h.valid.eq_of_id hp ht, hout] at hwrapped
    cases hwrapped
  · cases heq
  · cases heq
  · rcases mem_redirectRequests_iff.mp hredirect with heq | ⟨_, _, heq⟩
    · exact hcut hreplaces (hsame hlink (Request.removeLink.inj heq))
    · cases heq

/-- Added are the fields typed as wrapper messages with their new types. -/
theorem mem_addedElements_iff (h : g.Flattenable) :
    e ∈ g.planFlattening.addedElements ↔
      ∃ id old p, (id, old) ∈ g.elements ∧ g.primitive? old = some p ∧ e = old.withPrimitive p := by
  have hanswers := answers_planFlattening g
  have hasked (e : Element) : Request.addElement e ∈ g.flatteningRequests ↔
      ∃ id old p, (id, old) ∈ g.elements ∧ g.primitive? old = some p ∧
        e = old.withPrimitive p := by
    rw [mem_flatteningRequests_iff]
    constructor
    · rintro (⟨_, _, _, heq⟩ | ⟨_, _, _, _, _, heq⟩ |
        ⟨origin, old, p, hreplaces, heq | heq | ⟨link, _, hredirect⟩⟩)
      · cases heq
      · cases heq
      · cases heq
      · obtain ⟨hmem, hprimitive⟩ := (h.replaces _ _ _).mp hreplaces
        exact ⟨origin, old, p, hmem, hprimitive, Request.addElement.inj heq⟩
      · rcases mem_redirectRequests_iff.mp hredirect with heq | ⟨_, _, heq⟩ <;>
          cases heq
    · rintro ⟨id, old, p, hmem, hprimitive, rfl⟩
      exact Or.inr (Or.inr ⟨id, old, p, (h.replaces _ _ _).mpr ⟨hmem, hprimitive⟩,
        Or.inr (Or.inl rfl)⟩)
  refine ⟨fun he => (hasked e).mp (hanswers.addedElements e he), ?_⟩
  rintro ⟨id, old, p, hmem, hprimitive, rfl⟩
  -- Something with the same identity is added, and it can only be this element.
  have hrequest := (hasked _).mpr ⟨id, old, p, hmem, hprimitive, rfl⟩
  obtain ⟨e', he', hkey⟩ := List.mem_map.mp (hanswers.addedKeys _ hrequest)
  obtain ⟨id', old', p', hmem', hprimitive', rfl⟩ := (hasked e').mp (hanswers.addedElements e' he')
  rw [Element.key_withPrimitive, Element.key_withPrimitive] at hkey
  obtain ⟨-, rfl⟩ := h.valid.eq_of_key hmem' hmem hkey
  obtain rfl := Option.some.inj (hprimitive'.symm.trans hprimitive)
  exact he'

/-- Added are the links into fields typed as wrapper messages, with new labels. -/
theorem mem_addedLinks_iff (h : g.Flattenable) :
    n ∈ g.planFlattening.addedLinks ↔
      ∃ l ∈ g.links, ∃ s t p, (l.source, s) ∈ g.elements ∧ (l.target, t) ∈ g.elements ∧
        g.primitive? t = some p ∧ n = ⟨s.key, t.key, ⟨.field, p.pathType, false⟩⟩ := by
  rw [(answers_planFlattening g).addedLinks, mem_flatteningRequests_iff]
  constructor
  · rintro (⟨_, _, _, heq⟩ | ⟨_, _, _, _, _, heq⟩ |
      ⟨origin, t, p, hreplaces, heq | heq | ⟨link, hlink, hredirect⟩⟩)
    · cases heq
    · cases heq
    · cases heq
    · cases heq
    · obtain ⟨hmem, hprimitive⟩ := (h.replaces _ _ _).mp hreplaces
      obtain ⟨hlink, htarget⟩ := List.mem_filter.mp hlink
      rw [← beq_iff_eq.mp htarget] at hmem
      rcases mem_redirectRequests_iff.mp hredirect with heq | ⟨s, hs, heq⟩
      · cases heq
      · exact ⟨link, hlink, s, t, p, h.valid.element?_eq_some_iff.mp hs, hmem, hprimitive,
          Request.addLink.inj heq⟩
  · rintro ⟨l, hl, s, t, p, hs, ht, hprimitive, rfl⟩
    refine Or.inr (Or.inr ⟨l.target, t, p, (h.replaces _ _ _).mpr ⟨ht, hprimitive⟩,
      Or.inr (Or.inr ⟨l, List.mem_filter.mpr ⟨hl, beq_self_eq_true _⟩, ?_⟩)⟩)
    exact mem_redirectRequests_iff.mpr (Or.inr ⟨s, h.valid.element?_eq_some_iff.mpr hs, rfl⟩)

/-- Kept are the vertices that stay as they are. -/
theorem mem_keptEntries_iff (h : g.Flattenable) {entry : VertexId × Element} :
    entry ∈ g.keptEntries g.planFlattening ↔
      entry ∈ g.elements ∧ isWrapped entry.2 = false ∧ g.primitive? entry.2 = none := by
  obtain ⟨id, e⟩ := entry
  rw [keptEntries, List.mem_filter]
  refine and_congr_right fun hmem => ?_
  have hremoved := h.mem_removedElements_iff hmem
  rw [Bool.not_eq_true', ← Bool.not_eq_true, List.contains_iff_mem, hremoved, not_or, not_not,
    Bool.not_eq_true]

/-- Kept are the links between vertices that stay as they are. -/
theorem mem_keptLinks_iff (h : g.Flattenable) {l : Link} (hl : l ∈ g.links) {s t : Element}
    (hs : (l.source, s) ∈ g.elements) (ht : (l.target, t) ∈ g.elements) :
    l ∈ g.keptLinks g.planFlattening ↔
      isWrapped s = false ∧ isWrapped t = false ∧ g.primitive? t = none := by
  rw [keptLinks, List.mem_filter]
  simp only [Bool.and_eq_true, Bool.not_eq_true', ← Bool.not_eq_true, List.contains_iff_mem,
    h.mem_removedElements_iff hs, h.mem_removedElements_iff ht, not_or, not_not]
  constructor
  · rintro ⟨-, -, ⟨hsource, -⟩, htarget, hkept⟩
    exact ⟨hsource, htarget, hkept⟩
  · rintro ⟨hsource, htarget, hkept⟩
    rw [Bool.not_eq_true] at htarget
    -- A field typed as a wrapper message has no edge to a vertex that stays.
    have hplain : g.primitive? s = none := by
      by_contra hprimitive
      rw [h.leaving l hl s t hs ht hprimitive] at htarget
      cases htarget
    have hout : ¬ isWrapped t = true := by
      rw [htarget]
      exact Bool.false_ne_true
    exact ⟨hl, h.notMem_removedLinks hl ht htarget hkept, ⟨hsource, hplain⟩, hout, hkept⟩

/-- The elements that a flattened store holds. -/
theorem mem_elements_iff (h : g.Flattenable) :
    e ∈ g.planFlattening.addedElements ++ (g.keptEntries g.planFlattening).map Prod.snd ↔
      (∃ id old p, (id, old) ∈ g.elements ∧ g.primitive? old = some p ∧
          e = old.withPrimitive p) ∨
        ∃ id, (id, e) ∈ g.elements ∧ isWrapped e = false ∧ g.primitive? e = none := by
  rw [List.mem_append, h.mem_addedElements_iff, List.mem_map]
  refine or_congr_right ?_
  simp only [h.mem_keptEntries_iff, Prod.exists, exists_and_right, exists_eq_right]

theorem nodup_keys (h : g.Flattenable) :
    ((g.planFlattening.addedElements ++
      (g.keptEntries g.planFlattening).map Prod.snd).map Element.key).Nodup := by
  rw [List.map_append, List.map_map, List.nodup_append]
  refine ⟨(answers_planFlattening g).nodupKeys,
    h.valid.keys.sublist (List.filter_sublist.map _), ?_⟩
  rintro key hadded key' hkept rfl
  obtain ⟨e, he, rfl⟩ := List.mem_map.mp hadded
  obtain ⟨id, old, p, hmem, hprimitive, rfl⟩ := h.mem_addedElements_iff.mp he
  obtain ⟨entry, hentry, hkey⟩ := List.mem_map.mp hkept
  obtain ⟨hmem', -, hnone⟩ := h.mem_keptEntries_iff.mp hentry
  rw [Element.key_withPrimitive] at hkey
  obtain ⟨-, heq⟩ := h.valid.eq_of_key hmem' hmem hkey
  rw [heq, hprimitive] at hnone
  cases hnone

/-- The identities that a flattened store holds are those outside the wrappers
file. -/
theorem mem_keys_iff (h : g.Flattenable) :
    key ∈ (g.planFlattening.addedElements ++
        (g.keptEntries g.planFlattening).map Prod.snd).map Element.key ↔
      ∃ id e, (id, e) ∈ g.elements ∧ isWrapped e = false ∧ e.key = key := by
  rw [List.mem_map]
  constructor
  · rintro ⟨e, he, rfl⟩
    rcases h.mem_elements_iff.mp he with ⟨id, old, p, hmem, hprimitive, rfl⟩ | ⟨id, hmem, hout, -⟩
    · have hsome : g.primitive? old ≠ none := Option.ne_none_iff_exists'.mpr ⟨p, hprimitive⟩
      exact ⟨id, old, hmem, h.outside id old hmem hsome, (Element.key_withPrimitive _ _).symm⟩
    · exact ⟨id, e, hmem, hout, rfl⟩
  · rintro ⟨id, e, hmem, hout, rfl⟩
    cases hprimitive : g.primitive? e with
    | none => exact ⟨e, h.mem_elements_iff.mpr (Or.inr ⟨id, hmem, hout, hprimitive⟩), rfl⟩
    | some p => exact ⟨e.withPrimitive p,
        h.mem_elements_iff.mpr (Or.inl ⟨id, e, p, hmem, hprimitive, rfl⟩),
        Element.key_withPrimitive _ _⟩

/-- The store that flattening leads to. -/
theorem flatten_holds (h : g.Flattenable) :
    g.flatten.Holds (g.planFlattening.addedElements ++
        (g.keptEntries g.planFlattening).map Prod.snd)
      (g.planFlattening.addedLinks ++ (g.keptLinks g.planFlattening).filterMap g.nameOf?) ∧
    g.keptEntries g.planFlattening ⊆ g.flatten.elements := by
  refine h.valid.apply_holds h.nodup_keys fun n hn => ?_
  obtain ⟨l, hl, s, t, p, hs, ht, hprimitive, rfl⟩ := h.mem_addedLinks_iff.mp hn
  have hsome : g.primitive? t ≠ none := Option.ne_none_iff_exists'.mpr ⟨p, hprimitive⟩
  exact ⟨h.mem_keys_iff.mpr ⟨l.source, s, hs, h.entering l hl s t hs ht hsome, rfl⟩,
    h.mem_keys_iff.mpr ⟨l.target, t, ht, h.outside _ t ht hsome, rfl⟩⟩

theorem relabel_of_some (h : g.Flattenable) {t : Element} (ht : (id, t) ∈ g.elements)
    (hprimitive : g.primitive? t = some p) (source : ElementKey) (edge : Edge) :
    g.relabel ⟨source, t.key, edge⟩ = ⟨source, t.key, ⟨.field, p.pathType, false⟩⟩ := by
  rw [relabel, h.valid.ofKey?_of_mem ht, Option.bind_some, hprimitive]

theorem relabel_of_none (h : g.Flattenable) {t : Element} (ht : (id, t) ∈ g.elements)
    (hkept : g.primitive? t = none) (source : ElementKey) (edge : Edge) :
    g.relabel ⟨source, t.key, edge⟩ = ⟨source, t.key, edge⟩ := by
  rw [relabel, h.valid.ofKey?_of_mem ht, Option.bind_some, hkept]

/-- The links between vertices that stay, by the elements at their ends. -/
theorem mem_relabelled_iff (h : g.Flattenable) :
    n ∈ (g.namedLinks.filter g.isOutside).map g.relabel ↔
      ∃ l ∈ g.links, ∃ s t, (l.source, s) ∈ g.elements ∧ (l.target, t) ∈ g.elements ∧
        isWrapped s = false ∧ isWrapped t = false ∧ g.relabel ⟨s.key, t.key, l.edge⟩ = n := by
  rw [List.mem_map]
  constructor
  · rintro ⟨n', hn', rfl⟩
    obtain ⟨hmem, hout⟩ := List.mem_filter.mp hn'
    obtain ⟨l, hl, hname⟩ := mem_namedLinks_iff.mp hmem
    obtain ⟨s, t, hs, ht, hname'⟩ := h.valid.exists_ends hl
    obtain rfl := Option.some.inj (hname.symm.trans hname')
    rw [isOutside, h.valid.ofKey?_of_mem hs, h.valid.ofKey?_of_mem ht] at hout
    simp only [Option.any_some, Bool.and_eq_true, Bool.not_eq_true'] at hout
    exact ⟨l, hl, s, t, hs, ht, hout.1, hout.2, rfl⟩
  · rintro ⟨l, hl, s, t, hs, ht, hsource, htarget, rfl⟩
    refine ⟨⟨s.key, t.key, l.edge⟩, List.mem_filter.mpr ⟨?_, ?_⟩, rfl⟩
    · exact mem_namedLinks_iff.mpr ⟨l, hl, nameOf?_eq_some_iff.mpr
        ⟨h.valid.keyOf?_of_mem hs, h.valid.keyOf?_of_mem ht, rfl⟩⟩
    · rw [isOutside, h.valid.ofKey?_of_mem hs, h.valid.ofKey?_of_mem ht]
      simp [hsource, htarget]

/-- The links that a flattened store holds are those between vertices that stay,
with their new labels. -/
theorem mem_links_iff (h : g.Flattenable) :
    n ∈ g.planFlattening.addedLinks ++ (g.keptLinks g.planFlattening).filterMap g.nameOf? ↔
      n ∈ (g.namedLinks.filter g.isOutside).map g.relabel := by
  rw [List.mem_append, h.mem_addedLinks_iff, List.mem_filterMap, h.mem_relabelled_iff]
  constructor
  · rintro (⟨l, hl, s, t, p, hs, ht, hprimitive, rfl⟩ | ⟨l, hkept, hname⟩)
    · -- An added link leads to a replacement, and has the ends of the link it is for.
      have hsome : g.primitive? t ≠ none := Option.ne_none_iff_exists'.mpr ⟨p, hprimitive⟩
      exact ⟨l, hl, s, t, hs, ht, h.entering l hl s t hs ht hsome, h.outside _ t ht hsome,
        h.relabel_of_some ht hprimitive _ _⟩
    · have hl : l ∈ g.links := List.mem_of_mem_filter hkept
      obtain ⟨s, t, hs, ht, hname'⟩ := h.valid.exists_ends hl
      obtain rfl := Option.some.inj (hname.symm.trans hname')
      obtain ⟨hsource, htarget, hnone⟩ := (h.mem_keptLinks_iff hl hs ht).mp hkept
      exact ⟨l, hl, s, t, hs, ht, hsource, htarget, h.relabel_of_none ht hnone _ _⟩
  · rintro ⟨l, hl, s, t, hs, ht, hsource, htarget, rfl⟩
    cases hprimitive : g.primitive? t with
    | some p => exact Or.inl ⟨l, hl, s, t, p, hs, ht, hprimitive,
        h.relabel_of_some ht hprimitive _ _⟩
    | none =>
        refine Or.inr ⟨l, (h.mem_keptLinks_iff hl hs ht).mpr ⟨hsource, htarget, hprimitive⟩, ?_⟩
        rw [h.relabel_of_none ht hprimitive]
        exact nameOf?_eq_some_iff.mpr ⟨h.valid.keyOf?_of_mem hs, h.valid.keyOf?_of_mem ht, rfl⟩

/-- No link is both added and kept. -/
theorem nodup_links (h : g.Flattenable) :
    (g.planFlattening.addedLinks ++
      (g.keptLinks g.planFlattening).filterMap g.nameOf?).Nodup := by
  have hkept : ((g.keptLinks g.planFlattening).filterMap g.nameOf?).Nodup :=
    (List.Nodup.of_map _ h.ends).sublist (List.filter_sublist.filterMap _)
  refine List.nodup_append.mpr ⟨(answers_planFlattening g).nodupLinks, hkept, ?_⟩
  rintro n hadded n' hn' rfl
  obtain ⟨old, -, s, t, p, -, ht, hprimitive, rfl⟩ := h.mem_addedLinks_iff.mp hadded
  obtain ⟨l, hl, hname⟩ := List.mem_filterMap.mp hn'
  obtain ⟨s', t', hs', ht', hname'⟩ := h.valid.exists_ends (List.mem_of_mem_filter hl)
  have hkey : t.key = t'.key :=
    congrArg PendingLink.target (Option.some.inj (hname.symm.trans hname'))
  obtain ⟨-, rfl⟩ := h.valid.eq_of_key ht ht' hkey
  obtain ⟨-, -, hnone⟩ := (h.mem_keptLinks_iff (List.mem_of_mem_filter hl) hs' ht').mp hl
  rw [hprimitive] at hnone
  cases hnone

/-- No two links have the same ends once they have new labels. -/
theorem nodup_ends_relabelled (h : g.Flattenable) :
    (((g.namedLinks.filter g.isOutside).map g.relabel).map
      fun n => (n.source, n.target)).Nodup := by
  rw [List.map_map]
  simp only [Function.comp_def, source_relabel, target_relabel]
  exact h.ends.sublist (List.filter_sublist.map _)

/-- Flattening does to a store what it should. -/
theorem flattened (h : g.Flattenable) : g.Flattened g.flatten := by
  obtain ⟨hholds, hkept⟩ := h.flatten_holds
  constructor
  · refine (List.perm_ext_iff_of_nodup hholds.valid.keys ?_).mpr fun key => ?_
    · exact h.valid.keys.sublist (List.filter_sublist.map _)
    · rw [hholds.keys_perm.mem_iff, h.mem_keys_iff]
      simp only [List.mem_map, List.mem_filter, Prod.exists, Bool.not_eq_true', and_assoc]
  · exact fun id e hmem hout hnone => hkept (h.mem_keptEntries_iff.mpr ⟨hmem, hout, hnone⟩)
  · intro id e p info hmem hprimitive hinfo
    obtain ⟨id', hid'⟩ := hholds.exists_id
      (h.mem_elements_iff.mpr (Or.inl ⟨id, e, p, hmem, hprimitive, rfl⟩))
    refine ⟨id', ?_⟩
    rw [Element.withPrimitive, hinfo] at hid'
    exact hid'
  · exact hholds.links.trans ((List.perm_ext_iff_of_nodup h.nodup_links
      (List.Nodup.of_map _ h.nodup_ends_relabelled)).mpr fun n => h.mem_links_iff)

end Flattenable

end Store

end SchemaGraph

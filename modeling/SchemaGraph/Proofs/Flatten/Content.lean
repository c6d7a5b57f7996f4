import Mathlib.Data.List.Basic
import SchemaGraph.Proofs.Flatten.Effect
import SchemaGraph.Proofs.Flatten.Leftover

/-!
# Flattening up to numbering

What flattening does to any valid store, said by the elements and the named links
that it holds (`flatten_holds_content`), for stores that the sets of a schema do not
lead to as well.

* `Store.LeadsTo` says that a field is replaced on behalf of a primitive, and
  `Store.Retypes` that this primitive is the first one;
* `Store.Stays` and `Store.StaysLinked` say what is left as it was;
* an added link is dropped where one of its ends is not left.

Numbers matter in one place only: of several primitives that a field leads to the
one with the least number gives it its type.  Two stores that hold the same
elements and links (`Store.Alike`) and agree in this are alike when they are
flattened (`Alike.flatten`).
-/

namespace SchemaGraph

namespace Store

/-! ## What is said without numbers -/

/-- The elements of a store. -/
def contents (g : Store) : List Element := g.elements.map Prod.snd

/-- A field that a wrapper message leads to. -/
def IsPrimitive (g : Store) (p : Element) : Prop :=
  p ∈ g.contents ∧ p.kind = .field ∧ ∃ w ∈ g.contents, w.kind = .message ∧ isWrapped w = true ∧
    ∃ edge, edge.kind = .field ∧ ⟨w.key, p.key, edge⟩ ∈ g.namedLinks

/-- The field `e` has an edge into the primitive `p`. -/
def LeadsTo (g : Store) (e p : Element) : Prop :=
  e ∈ g.contents ∧ e.kind = .field ∧ g.IsPrimitive p ∧ ∃ edge, ⟨e.key, p.key, edge⟩ ∈ g.namedLinks

/-- Of the primitives that the field `e` leads to, `p` has the least number. -/
def Retypes (g : Store) (e p : Element) : Prop :=
  g.LeadsTo e p ∧ ∀ id id' p', (id, p) ∈ g.elements → (id', p') ∈ g.elements →
    g.LeadsTo e p' → id ≤ id'

/-- An element that flattening leaves as it is. -/
def Stays (g : Store) (e : Element) : Prop := isWrapped e = false ∧ ∀ p, ¬ g.LeadsTo e p

/-- A link that flattening leaves as it is. -/
def StaysLinked (g : Store) (n : PendingLink) : Prop :=
  ∃ s ∈ g.contents, ∃ t ∈ g.contents, s.key = n.source ∧ t.key = n.target ∧
    g.Stays s ∧ g.Stays t ∧ ¬ g.IsPrimitive t

/-- A link that leads into a replaced field anew. -/
def Redirects (g : Store) (n : PendingLink) : Prop :=
  ∃ e p s edge, g.LeadsTo e p ∧ s ∈ g.contents ∧ ⟨s.key, e.key, edge⟩ ∈ g.namedLinks ∧
    n = ⟨s.key, e.key, ⟨.field, p.pathType, false⟩⟩

variable {g g' : Store} {id primitive origin : VertexId} {e e' p s t : Element} {n : PendingLink}
variable {edge : Edge}

theorem mem_contents_iff : e ∈ g.contents ↔ ∃ id, (id, e) ∈ g.elements := by
  rw [contents, List.mem_map]
  constructor
  · rintro ⟨entry, hentry, rfl⟩
    exact ⟨entry.1, hentry⟩
  · rintro ⟨id, hid⟩
    exact ⟨(id, e), hid, rfl⟩

/-- An identity names one element. -/
theorem Valid.eq_of_key_contents (h : g.Valid) (he : e ∈ g.contents) (he' : e' ∈ g.contents)
    (hkey : e.key = e'.key) : e = e' := by
  obtain ⟨id, hid⟩ := mem_contents_iff.mp he
  obtain ⟨id', hid'⟩ := mem_contents_iff.mp he'
  exact (h.eq_of_key hid hid' hkey).2

/-- A link between two elements, by name and by number. -/
theorem Valid.mem_namedLinks_of_mem (h : g.Valid) {source target : VertexId}
    (hs : (source, s) ∈ g.elements) (ht : (target, t) ∈ g.elements) :
    ⟨s.key, t.key, edge⟩ ∈ g.namedLinks ↔
      ∃ l ∈ g.links, l.source = source ∧ l.target = target ∧ l.edge = edge := by
  rw [mem_namedLinks_iff]
  constructor
  · rintro ⟨l, hl, hname⟩
    obtain ⟨hsource, htarget, hedge⟩ := nameOf?_eq_some_iff.mp hname
    exact ⟨l, hl, h.eq_of_keyOf? hsource (h.keyOf?_of_mem hs),
      h.eq_of_keyOf? htarget (h.keyOf?_of_mem ht), hedge⟩
  · rintro ⟨l, hl, rfl, rfl, rfl⟩
    exact ⟨l, hl, nameOf?_eq_some_iff.mpr ⟨h.keyOf?_of_mem hs, h.keyOf?_of_mem ht, rfl⟩⟩

theorem Valid.mem_wrappers_iff (h : g.Valid) (he : (id, e) ∈ g.elements) :
    id ∈ g.wrappers ↔ e.kind = .message ∧ isWrapped e = true := by
  rw [wrappers, List.mem_map]
  constructor
  · rintro ⟨⟨i, w⟩, hw, rfl⟩
    obtain ⟨hmem, hwrapper⟩ := List.mem_filter.mp hw
    rw [h.eq_of_id he hmem]
    simpa using hwrapper
  · rintro ⟨hkind, hwrapped⟩
    exact ⟨(id, e), List.mem_filter.mpr ⟨he, by simp [hkind, hwrapped]⟩, rfl⟩

/-- The numbers of primitives. -/
theorem Valid.mem_primitives_iff (h : g.Valid) (hp : (primitive, p) ∈ g.elements) :
    primitive ∈ g.primitives ↔ g.IsPrimitive p := by
  rw [primitives, Ordered.mem_natSet, List.mem_filter, isField_iff_of_mem h hp, and_comm,
    IsPrimitive, and_iff_right (mem_contents_iff.mpr ⟨_, hp⟩)]
  refine and_congr_right fun _ => ?_
  simp only [List.mem_map, List.mem_flatMap, List.mem_filter, beq_iff_eq]
  constructor
  · rintro ⟨l, ⟨source, hwrapper, hleaves, hfield⟩, rfl⟩
    obtain ⟨hl, hsource⟩ := List.mem_filter.mp hleaves
    obtain rfl := beq_iff_eq.mp hsource
    obtain ⟨w, hw⟩ := mem_ids_iff.mp (h.ends l hl).1
    obtain ⟨hkind, hwrapped⟩ := (h.mem_wrappers_iff hw).mp hwrapper
    exact ⟨w, mem_contents_iff.mpr ⟨_, hw⟩, hkind, hwrapped, l.edge, hfield,
      (h.mem_namedLinks_of_mem hw hp).mpr ⟨l, hl, rfl, rfl, rfl⟩⟩
  · rintro ⟨w, hw, hkind, hwrapped, edge, hfield, hnamed⟩
    obtain ⟨source, hw⟩ := mem_contents_iff.mp hw
    obtain ⟨l, hl, rfl, rfl, rfl⟩ := (h.mem_namedLinks_of_mem hw hp).mp hnamed
    exact ⟨l, ⟨l.source, (h.mem_wrappers_iff hw).mpr ⟨hkind, hwrapped⟩,
      List.mem_filter.mpr ⟨hl, beq_self_eq_true _⟩, hfield⟩, rfl⟩

/-- The numbers of the fields that lead to a primitive. -/
theorem Valid.leadsTo_iff (h : g.Valid) (he : (origin, e) ∈ g.elements)
    (hp : (primitive, p) ∈ g.elements) :
    g.LeadsTo e p ↔ primitive ∈ g.primitives ∧ origin ∈ g.originsOf primitive := by
  rw [LeadsTo, and_iff_right (mem_contents_iff.mpr ⟨_, he⟩), h.mem_primitives_iff hp, originsOf,
    Ordered.mem_natSet, List.mem_filter, Bool.and_eq_true, isField_iff_of_mem h he,
    and_left_comm]
  refine and_congr_right fun _ => ?_
  simp only [h.mem_namedLinks_of_mem he hp, List.mem_map, incoming, List.mem_filter, beq_iff_eq]
  constructor
  · rintro ⟨hkind, edge, l, hl, hsource, htarget, -⟩
    refine ⟨⟨l, ⟨hl, htarget⟩, hsource⟩, hkind, ?_⟩
    -- A field is not a message.
    have hnot : origin ∉ g.wrappers := fun hwrapper => by
      have hmessage := ((h.mem_wrappers_iff he).mp hwrapper).1
      cases hkind.symm.trans hmessage
    simpa using hnot
  · rintro ⟨⟨l, ⟨hl, htarget⟩, hsource⟩, hkind, -⟩
    exact ⟨hkind, l.edge, l, hl, hsource, htarget, rfl⟩

theorem Valid.replaces_iff (h : g.Valid) :
    g.Replaces origin e p ↔ (origin, e) ∈ g.elements ∧ g.LeadsTo e p := by
  constructor
  · rintro ⟨primitive, hprimitive, hp, horigin, he⟩
    have hmem := h.element?_eq_some_iff.mp he
    exact ⟨hmem, (h.leadsTo_iff hmem (h.element?_eq_some_iff.mp hp)).mpr ⟨hprimitive, horigin⟩⟩
  · rintro ⟨he, hleads⟩
    obtain ⟨primitive, hp⟩ := mem_contents_iff.mp hleads.2.2.1.1
    obtain ⟨hprimitive, horigin⟩ := (h.leadsTo_iff he hp).mp hleads
    exact ⟨primitive, hprimitive, h.element?_eq_some_iff.mpr hp, horigin,
      h.element?_eq_some_iff.mpr he⟩

/-! ## What the plan removes -/

theorem Valid.mem_removedElements_iff (h : g.Valid) (he : (id, e) ∈ g.elements) :
    id ∈ g.planFlattening.removedElements ↔ ¬ g.Stays e := by
  have hasked : ¬ g.Stays e ↔ isWrapped e = true ∨ ∃ p, g.LeadsTo e p := by
    rw [Stays, not_and_or, Bool.not_eq_false, not_forall]
    simp only [not_not]
  rw [hasked, (answers_planFlattening g).removedElements, mem_flatteningRequests_iff]
  constructor
  · rintro (⟨entry, hentry, hwrapped, heq⟩ | ⟨_, _, _, link, _, heq⟩ |
      ⟨origin, old, p, hreplaces, heq | heq | ⟨link, _, hredirect⟩⟩)
    · obtain rfl := Request.removeElement.inj heq
      rw [h.eq_of_id he hentry]
      exact Or.inl hwrapped
    · cases heq
    · obtain rfl := Request.removeElement.inj heq
      obtain ⟨hmem, hleads⟩ := h.replaces_iff.mp hreplaces
      obtain rfl := h.eq_of_id he hmem
      exact Or.inr ⟨p, hleads⟩
    · cases heq
    · rcases mem_redirectRequests_iff.mp hredirect with heq | ⟨_, _, heq⟩ <;> cases heq
  · rintro (hwrapped | ⟨p, hleads⟩)
    · exact Or.inl ⟨(id, e), he, hwrapped, rfl⟩
    · exact Or.inr (Or.inr ⟨id, e, p, h.replaces_iff.mpr ⟨he, hleads⟩, Or.inl rfl⟩)

/-- Links into primitives and into replaced fields are removed. -/
theorem Valid.mem_removedLinks_iff (h : g.Valid) {l : Link} (hl : l ∈ g.links)
    (ht : (l.target, t) ∈ g.elements) :
    l.id ∈ g.planFlattening.removedLinks ↔ g.IsPrimitive t ∨ ∃ p, g.LeadsTo t p := by
  have hsame {link : Link} {i : VertexId} (hlink : link ∈ g.incoming i) (hid : l.id = link.id) :
      l.target = i := by
    obtain ⟨hlink, htarget⟩ := List.mem_filter.mp hlink
    rw [h.eq_of_linkId hl hlink hid]
    exact beq_iff_eq.mp htarget
  have henters : l ∈ g.incoming l.target := List.mem_filter.mpr ⟨hl, beq_self_eq_true _⟩
  rw [(answers_planFlattening g).removedLinks, mem_flatteningRequests_iff]
  constructor
  · rintro (⟨_, _, _, heq⟩ | ⟨primitive, hprimitive, _, link, hlink, heq⟩ |
      ⟨origin, e, p, hreplaces, heq | heq | ⟨link, hlink, hredirect⟩⟩)
    · cases heq
    · obtain rfl := hsame hlink (Request.removeLink.inj heq)
      exact Or.inl ((h.mem_primitives_iff ht).mp hprimitive)
    · cases heq
    · cases heq
    · rcases mem_redirectRequests_iff.mp hredirect with heq | ⟨_, _, heq⟩
      · obtain rfl := hsame hlink (Request.removeLink.inj heq)
        obtain ⟨hmem, hleads⟩ := h.replaces_iff.mp hreplaces
        obtain rfl := h.eq_of_id ht hmem
        exact Or.inr ⟨p, hleads⟩
      · cases heq
  · rintro (hprimitive | ⟨p, hleads⟩)
    · refine Or.inr (Or.inl ⟨l.target, (h.mem_primitives_iff ht).mpr hprimitive, ?_, l, henters,
        rfl⟩)
      rw [h.element?_eq_some_iff.mpr ht]
      rfl
    · exact Or.inr (Or.inr ⟨l.target, t, p, h.replaces_iff.mpr ⟨ht, hleads⟩,
        Or.inr (Or.inr ⟨l, henters, mem_redirectRequests_iff.mpr (Or.inl rfl)⟩)⟩)

open Classical in
theorem Valid.map_keptEntries (h : g.Valid) :
    (g.keptEntries g.planFlattening).map Prod.snd = g.contents.filter fun e => g.Stays e := by
  rw [contents, List.filter_map, keptEntries]
  refine congrArg _ (List.filter_congr fun entry hmem => ?_)
  rw [Function.comp_apply, Bool.eq_iff_iff, Bool.not_eq_true', ← Bool.not_eq_true,
    List.contains_iff_mem, h.mem_removedElements_iff hmem, not_not, decide_eq_true_iff]

open Classical in
theorem Valid.names_keptLinks (h : g.Valid) :
    (g.keptLinks g.planFlattening).filterMap g.nameOf? =
      g.namedLinks.filter fun n => g.StaysLinked n := by
  refine (filter_namedLinks fun l hl n hn => ?_).symm
  obtain ⟨s, t, hs, ht, hname⟩ := h.exists_ends hl
  obtain rfl := Option.some.inj (hn.symm.trans hname)
  have hstays : g.StaysLinked ⟨s.key, t.key, l.edge⟩ ↔
      g.Stays s ∧ g.Stays t ∧ ¬ g.IsPrimitive t := by
    constructor
    · rintro ⟨s', hs', t', ht', hsource, htarget, hstays⟩
      obtain rfl := h.eq_of_key_contents hs' (mem_contents_iff.mpr ⟨_, hs⟩) hsource
      obtain rfl := h.eq_of_key_contents ht' (mem_contents_iff.mpr ⟨_, ht⟩) htarget
      exact hstays
    · exact fun hstays => ⟨s, mem_contents_iff.mpr ⟨_, hs⟩, t, mem_contents_iff.mpr ⟨_, ht⟩, rfl,
        rfl, hstays⟩
  rw [Bool.eq_iff_iff]
  simp only [decide_eq_true_iff, Bool.and_eq_true, Bool.not_eq_true', ← Bool.not_eq_true, List.contains_iff_mem, h.mem_removedElements_iff hs,
    h.mem_removedElements_iff ht, h.mem_removedLinks_iff hl ht, not_not, hstays, not_or]
  constructor
  · rintro ⟨hsource, htarget, hprimitive⟩
    exact ⟨⟨hprimitive, fun ⟨p, hleads⟩ => htarget.2 p hleads⟩, hsource, htarget⟩
  · rintro ⟨⟨hprimitive, -⟩, hsource, htarget⟩
    exact ⟨hsource, htarget, hprimitive⟩

/-! ## What the plan adds -/

theorem Valid.mem_addedLinks_iff (h : g.Valid) :
    n ∈ g.planFlattening.addedLinks ↔ g.Redirects n := by
  rw [(answers_planFlattening g).addedLinks, mem_flatteningRequests_iff]
  constructor
  · rintro (⟨_, _, _, heq⟩ | ⟨_, _, _, _, _, heq⟩ |
      ⟨origin, e, p, hreplaces, heq | heq | ⟨link, hlink, hredirect⟩⟩)
    · cases heq
    · cases heq
    · cases heq
    · cases heq
    · obtain ⟨he, hleads⟩ := h.replaces_iff.mp hreplaces
      obtain ⟨hlink, htarget⟩ := List.mem_filter.mp hlink
      rcases mem_redirectRequests_iff.mp hredirect with heq | ⟨s, hs, heq⟩
      · cases heq
      · have hs := h.element?_eq_some_iff.mp hs
        exact ⟨e, p, s, link.edge, hleads, mem_contents_iff.mpr ⟨_, hs⟩,
          (h.mem_namedLinks_of_mem hs he).mpr ⟨link, hlink, rfl, beq_iff_eq.mp htarget, rfl⟩,
          Request.addLink.inj heq⟩
  · rintro ⟨e, p, s, edge, hleads, hs, hnamed, rfl⟩
    obtain ⟨origin, he⟩ := mem_contents_iff.mp hleads.1
    obtain ⟨source, hs⟩ := mem_contents_iff.mp hs
    obtain ⟨l, hl, rfl, rfl, rfl⟩ := (h.mem_namedLinks_of_mem hs he).mp hnamed
    refine Or.inr (Or.inr ⟨l.target, e, p, h.replaces_iff.mpr ⟨he, hleads⟩,
      Or.inr (Or.inr ⟨l, List.mem_filter.mpr ⟨hl, beq_self_eq_true _⟩, ?_⟩)⟩)
    exact mem_redirectRequests_iff.mpr (Or.inr ⟨s, h.element?_eq_some_iff.mpr hs, rfl⟩)

/-- The replacements that are asked for on behalf of a primitive. -/
def replacements (g : Store) (primitive : VertexId) : List Element :=
  match g.element? primitive with
  | none => []
  | some p => (g.originsOf primitive).filterMap fun origin =>
    (g.element? origin).map fun e => e.withPrimitive p

theorem askedElements_flatMap {α : Type} (as : List α) (requests : α → List Request) :
    Patch.askedElements (as.flatMap requests) =
      as.flatMap fun a => Patch.askedElements (requests a) := by
  induction as with
  | nil => rfl
  | cons a rest ih => rw [List.flatMap_cons, List.flatMap_cons, Patch.askedElements_append, ih]

/-- Requests that add nothing. -/
theorem askedElements_eq_nil {requests : List Request}
    (h : ∀ e, .addElement e ∉ requests) : Patch.askedElements requests = [] := by
  rw [Patch.askedElements, List.filterMap_eq_nil_iff]
  intro r hr
  cases r with
  | addElement e => exact absurd hr (h e)
  | removeLink id => rfl
  | removeElement id => rfl
  | addLink l => rfl

theorem askedElements_originRequests (g : Store) (p : Element) (origin : VertexId) :
    Patch.askedElements (g.originRequests p origin) =
      ((g.element? origin).map fun e => e.withPrimitive p).toList := by
  rw [originRequests]
  cases g.element? origin with
  | none => rfl
  | some e =>
      have hredirect : Patch.askedElements
          ((g.incoming origin).flatMap (g.redirectRequests p (e.withPrimitive p).key)) = [] := by
        refine askedElements_eq_nil fun a ha => ?_
        obtain ⟨l, -, hl⟩ := List.mem_flatMap.mp ha
        rcases mem_redirectRequests_iff.mp hl with heq | ⟨_, _, heq⟩ <;> cases heq
      show Patch.askedElements (_ ++ [Request.addElement (e.withPrimitive p)]) = _
      rw [Patch.askedElements_append, hredirect]
      rfl

/-- The elements that flattening asks for, by the primitives in ascending order. -/
theorem askedElements_flattening (g : Store) :
    Patch.askedElements g.flatteningRequests = g.primitives.flatMap g.replacements := by
  have hremovals : Patch.askedElements ((g.elements.filter fun entry => isWrapped entry.2).map
      fun entry => Request.removeElement entry.1) = [] := by
    refine askedElements_eq_nil fun a ha => ?_
    obtain ⟨_, _, heq⟩ := List.mem_map.mp ha
    cases heq
  rw [flatteningRequests, Patch.askedElements_append, hremovals, List.nil_append, askedElements_flatMap]
  refine congrArg (List.flatMap · _) (funext fun primitive => ?_)
  rw [primitiveRequests, replacements]
  cases g.element? primitive with
  | none => rfl
  | some p =>
      have hcut : Patch.askedElements
          ((g.incoming primitive).map fun l => Request.removeLink l.id) = [] := by
        refine askedElements_eq_nil fun a ha => ?_
        obtain ⟨_, _, heq⟩ := List.mem_map.mp ha
        cases heq
      dsimp only
      rw [Patch.askedElements_append, hcut, List.nil_append, askedElements_flatMap]
      simp only [askedElements_originRequests]
      exact (List.filterMap_eq_flatMap_toList _ _).symm

theorem Valid.mem_replacements_iff (h : g.Valid) (hp : (primitive, p) ∈ g.elements)
    (hprimitive : primitive ∈ g.primitives) {a : Element} :
    a ∈ g.replacements primitive ↔ ∃ e, g.LeadsTo e p ∧ a = e.withPrimitive p := by
  rw [replacements, h.element?_eq_some_iff.mpr hp]
  dsimp only
  rw [List.mem_filterMap]
  constructor
  · rintro ⟨origin, horigin, heq⟩
    obtain ⟨e, he, rfl⟩ := Option.map_eq_some_iff.mp heq
    exact ⟨e, (h.leadsTo_iff (h.element?_eq_some_iff.mp he) hp).mpr ⟨hprimitive, horigin⟩, rfl⟩
  · rintro ⟨e, hleads, rfl⟩
    obtain ⟨origin, he⟩ := mem_contents_iff.mp hleads.1
    refine ⟨origin, ((h.leadsTo_iff he hp).mp hleads).2, ?_⟩
    rw [h.element?_eq_some_iff.mpr he]
    rfl

/-- The first element of an ascending list where a search succeeds. -/
theorem findSome?_eq_some_of_ascending {α : Type} {f : Nat → Option α} {ids : List Nat} {a : α}
    (hascending : ids.Pairwise (· < ·)) (h : ids.findSome? f = some a) :
    ∃ id ∈ ids, f id = some a ∧ ∀ id' ∈ ids, f id' ≠ none → id ≤ id' := by
  obtain ⟨before, id, after, rfl, hfound, hnone⟩ := List.findSome?_eq_some_iff.mp h
  refine ⟨id, by simp, hfound, fun id' hid' hsome => ?_⟩
  rcases List.mem_append.mp hid' with hbefore | hafter
  · exact absurd (hnone id' hbefore) hsome
  · rcases List.mem_cons.mp hafter with rfl | hafter
    · exact Nat.le_refl _
    · exact Nat.le_of_lt
        ((List.pairwise_cons.mp (List.pairwise_append.mp hascending).2.1).1 id' hafter)

/-- Added is each field that leads to a primitive, typed as the first one. -/
theorem Valid.mem_addedElements_iff (h : g.Valid) {a : Element} :
    a ∈ g.planFlattening.addedElements ↔ ∃ e p, g.Retypes e p ∧ a = e.withPrimitive p := by
  -- A search among the replacements for one primitive succeeds for the fields that lead to it.
  have hfound {i : VertexId} {q x : Element} (hq : (i, q) ∈ g.elements) (hi : i ∈ g.primitives)
      (hx : (g.replacements i).find? (fun other => other.key == a.key) = some x) :
      ∃ e, g.LeadsTo e q ∧ x = e.withPrimitive q ∧ e.key = a.key := by
    obtain ⟨e, hleads, rfl⟩ := (h.mem_replacements_iff hq hi).mp (List.mem_of_find?_eq_some hx)
    have hkey := List.find?_some hx
    rw [beq_iff_eq, Element.key_withPrimitive] at hkey
    exact ⟨e, hleads, rfl, hkey⟩
  have hsearched {i : VertexId} {e q : Element} (hq : (i, q) ∈ g.elements)
      (hleads : g.LeadsTo e q) (hkey : e.key = a.key) :
      i ∈ g.primitives ∧
        (g.replacements i).find? (fun other => other.key == a.key) ≠ none := by
    have hi := (h.mem_primitives_iff hq).mpr hleads.2.2.1
    refine ⟨hi, fun hnone => ?_⟩
    have hmem := (h.mem_replacements_iff hq hi).mpr ⟨e, hleads, rfl⟩
    refine List.find?_eq_none.mp hnone _ hmem ?_
    rw [Element.key_withPrimitive, hkey]
    exact beq_self_eq_true _
  have hids {i : VertexId} (hi : i ∈ g.primitives) : ∃ q, (i, q) ∈ g.elements := by
    rw [primitives, Ordered.mem_natSet, List.mem_filter, isField] at hi
    cases hq : g.element? i with
    | none =>
        rw [hq] at hi
        cases hi.2
    | some q => exact ⟨q, h.element?_eq_some_iff.mp hq⟩
  rw [planFlattening_eq, Patch.mem_addedElements_requestAll, askedElements_flattening,
    List.find?_flatMap]
  constructor
  · intro hfirst
    obtain ⟨i, hi, hx, hleast⟩ := findSome?_eq_some_of_ascending (Ordered.pairwise_natSet _) hfirst
    obtain ⟨q, hq⟩ := hids hi
    obtain ⟨e, hleads, rfl, hkey⟩ := hfound hq hi hx
    refine ⟨e, q, ⟨hleads, fun id id' p' hid hid' hleads' => ?_⟩, rfl⟩
    obtain ⟨rfl, -⟩ := h.eq_of_key hid hq rfl
    obtain ⟨hprimitive, hsome⟩ := hsearched hid' hleads' hkey
    exact hleast id' hprimitive hsome
  · rintro ⟨e, p, ⟨hleads, hleast⟩, rfl⟩
    obtain ⟨id, hp⟩ := mem_contents_iff.mp hleads.2.2.1.1
    obtain ⟨hprimitive, hsome⟩ := hsearched hp hleads (Element.key_withPrimitive e p).symm
    cases hfirst : g.primitives.findSome? fun i =>
        (g.replacements i).find? fun other => other.key == (e.withPrimitive p).key with
    | none => exact absurd (List.findSome?_eq_none_iff.mp hfirst id hprimitive) hsome
    | some x =>
        obtain ⟨i, hi, hx, hbefore⟩ := findSome?_eq_some_of_ascending (Ordered.pairwise_natSet _) hfirst
        obtain ⟨q, hq⟩ := hids hi
        obtain ⟨e', hleads', rfl, hkey⟩ := hfound hq hi hx
        rw [Element.key_withPrimitive] at hkey
        obtain rfl := h.eq_of_key_contents hleads'.1 hleads.1 hkey
        obtain rfl := Nat.le_antisymm (hbefore id hprimitive hsome) (hleast id i q hp hq hleads')
        rw [h.eq_of_id hq hp]

/-! ## What is left -/

variable {es : List Element} {ls : List PendingLink}

/-- Whether both ends of a link are among some elements. -/
def hasEnds (es : List Element) (n : PendingLink) : Bool :=
  (es.map Element.key).contains n.source && (es.map Element.key).contains n.target

/-- Of links between any elements those are added that have both ends. -/
theorem Holds.foldl_connect_hasEnds (h : g.Holds es ls) (added : List PendingLink) :
    (added.foldl connect g).Holds es (added.filter (hasEnds es) ++ ls) := by
  induction added generalizing g ls with
  | nil => exact h
  | cons n rest ih =>
      cases hends : hasEnds es n with
      | false =>
          have hsame : g.connect n = g := by
            rw [connect]
            split
            · next source target hsource htarget =>
              have hs := h.valid.mem_keys_of_find? hsource
              have ht := h.valid.mem_keys_of_find? htarget
              rw [h.keys_perm.mem_iff] at hs ht
              simp [hasEnds, hs, ht] at hends
            · rfl
          rw [List.foldl_cons, hsame, List.filter_cons_of_neg (by simp [hends])]
          exact ih h
      | true =>
          obtain ⟨hsource, htarget⟩ := Bool.and_eq_true _ _ ▸ hends
          have hboth : ∀ n' ∈ [n], n'.source ∈ es.map Element.key ∧
              n'.target ∈ es.map Element.key := by
            intro n' hn'
            rw [List.mem_singleton.mp hn']
            exact ⟨List.contains_iff_mem.mp hsource, List.contains_iff_mem.mp htarget⟩
          have hconnected : (g.connect n).Holds es ([n] ++ ls) := (h.foldl_connect hboth).1
          rw [List.foldl_cons, List.filter_cons_of_pos hends]
          exact (ih hconnected).perm (List.Perm.refl _) List.perm_middle

open Classical in
/-- The elements that a flattened store holds. -/
noncomputable def flattenedContents (g : Store) : List Element :=
  g.planFlattening.addedElements ++ g.contents.filter fun e => g.Stays e

/-- A replacement has the identity of a field that does not stay. -/
theorem Valid.nodup_flattenedContents (h : g.Valid) :
    (g.flattenedContents.map Element.key).Nodup := by
  classical
  have hkeys : (g.contents.map Element.key).Nodup := by
    rw [contents, List.map_map]
    exact h.keys
  rw [flattenedContents, List.map_append, List.nodup_append]
  refine ⟨(answers_planFlattening g).nodupKeys, hkeys.sublist (List.filter_sublist.map _), ?_⟩
  rintro key hadded key' hkept rfl
  obtain ⟨a, ha, rfl⟩ := List.mem_map.mp hadded
  obtain ⟨e, p, ⟨hleads, -⟩, rfl⟩ := h.mem_addedElements_iff.mp ha
  obtain ⟨e', he', hkey⟩ := List.mem_map.mp hkept
  obtain ⟨hmem, hstays⟩ := List.mem_filter.mp he'
  rw [Element.key_withPrimitive] at hkey
  obtain rfl := h.eq_of_key_contents hmem hleads.1 hkey
  exact (of_decide_eq_true hstays).2 p hleads

open Classical in
/-- What a flattened store holds: the replacements and what stays, the links into
replacements from what is left, and the links that stay. -/
theorem Valid.flatten_holds_content (h : g.Valid) :
    g.flatten.Holds g.flattenedContents
      (g.planFlattening.addedLinks.filter (hasEnds g.flattenedContents) ++
        g.namedLinks.filter fun n => g.StaysLinked n) := by
  have hkept := h.removals_holds g.planFlattening
  rw [h.map_keptEntries, h.names_keptLinks] at hkept
  exact (hkept.foldl_addElement h.nodup_flattenedContents).1.foldl_connect_hasEnds _

/-! ## Stores that hold the same -/

/-- Two stores hold the same elements and the same links, under any numbers. -/
structure Alike (g g' : Store) : Prop where
  valid : g.Valid
  valid' : g'.Valid
  contents : g.contents.Perm g'.contents
  links : g.namedLinks.Perm g'.namedLinks

theorem Holds.alike (h : g.Holds es ls) (h' : g'.Holds es ls) : g.Alike g' where
  valid := h.valid
  valid' := h'.valid
  contents := h.elements.trans h'.elements.symm
  links := h.links.trans h'.links.symm

namespace Alike

theorem isPrimitive_iff (h : g.Alike g') : g.IsPrimitive p ↔ g'.IsPrimitive p := by
  simp only [IsPrimitive, h.contents.mem_iff, h.links.mem_iff]

theorem leadsTo_iff (h : g.Alike g') : g.LeadsTo e p ↔ g'.LeadsTo e p := by
  simp only [LeadsTo, h.contents.mem_iff, h.links.mem_iff, h.isPrimitive_iff]

theorem stays_iff (h : g.Alike g') : g.Stays e ↔ g'.Stays e := by
  simp only [Stays, h.leadsTo_iff]

theorem staysLinked_iff (h : g.Alike g') : g.StaysLinked n ↔ g'.StaysLinked n := by
  simp only [StaysLinked, h.contents.mem_iff, h.stays_iff, h.isPrimitive_iff]

theorem redirects_iff (h : g.Alike g') : g.Redirects n ↔ g'.Redirects n := by
  simp only [Redirects, h.leadsTo_iff, h.contents.mem_iff, h.links.mem_iff]

/-- Stores that hold the same and agree on which primitive comes first hold the same
when they are flattened. -/
theorem flatten (h : g.Alike g') (hfirst : ∀ e p, g.Retypes e p ↔ g'.Retypes e p) :
    g.flatten.Alike g'.flatten := by
  classical
  have hadded : g.planFlattening.addedElements.Perm g'.planFlattening.addedElements := by
    refine (List.perm_ext_iff_of_nodup (List.Nodup.of_map _ (answers_planFlattening g).nodupKeys)
      (List.Nodup.of_map _ (answers_planFlattening g').nodupKeys)).mpr fun a => ?_
    simp only [h.valid.mem_addedElements_iff, h.valid'.mem_addedElements_iff, hfirst]
  have hlinks : g.planFlattening.addedLinks.Perm g'.planFlattening.addedLinks := by
    refine (List.perm_ext_iff_of_nodup (answers_planFlattening g).nodupLinks
      (answers_planFlattening g').nodupLinks).mpr fun n => ?_
    rw [h.valid.mem_addedLinks_iff, h.valid'.mem_addedLinks_iff, h.redirects_iff]
  have hcontents : g.flattenedContents.Perm g'.flattenedContents := by
    refine hadded.append ?_
    simp only [h.stays_iff]
    exact h.contents.filter _
  have hends : hasEnds g.flattenedContents = hasEnds g'.flattenedContents := by
    funext n
    simp only [hasEnds, (hcontents.map Element.key).contains_eq]
  refine h.valid.flatten_holds_content.alike (h.valid'.flatten_holds_content.perm ?_ ?_)
  · exact hcontents.symm
  · rw [← hends]
    refine (hlinks.symm.filter _).append ?_
    simp only [h.staysLinked_iff]
    exact h.links.symm.filter _

end Alike

end Store

end SchemaGraph

import SchemaGraph.Proofs.Flatten.Requests
import SchemaGraph.Proofs.Schema.Traced

/-!
# What flattening leaves of the wrappers file

Everything that the wrappers file declares is removed, but a replaced field comes
back as its own replacement, and this is declared in the same file.

* `wrapped_flatten_iff` says of every valid store what is left: the fields of the
  wrappers file that are replaced themselves;
* `flatten_removes_wrapped` says of every set, whatever names its declarations
  have, that nothing is left if no field of the wrappers file is typed as a
  message (`FileSet.HasShallowWrappers`), for then no edge leads from one of them to
  a field (`Store.HasShallowWrappers`);
* `nestedWrappers` is a set where a field of the wrappers file is left.
-/

namespace SchemaGraph

namespace Store

variable {g : Store} {id : VertexId} {e : Element} {key : ElementKey}

/-- A replacement is declared where the field was. -/
theorem isWrapped_withPrimitive (e p : Element) : isWrapped (e.withPrimitive p) = isWrapped e := by
  rfl

theorem isField_iff_of_mem (h : g.Valid) (hmem : (id, e) ∈ g.elements) :
    g.isField id = true ↔ e.kind = .field := by
  rw [isField, h.element?_eq_some_iff.mpr hmem, beq_iff_eq]

theorem Valid.exists_isField (h : g.Valid) (hfield : g.isField id = true) :
    ∃ e, (id, e) ∈ g.elements ∧ e.kind = .field := by
  cases he : g.element? id with
  | none => simp [isField, he] at hfield
  | some e =>
      have hmem := h.element?_eq_some_iff.mp he
      exact ⟨e, hmem, (isField_iff_of_mem h hmem).mp hfield⟩

/-- A field is replaced because of an edge from it to another one. -/
theorem Replaces.exists_link (h : g.Valid) {origin : VertexId} {p : Element}
    (hreplaces : g.Replaces origin e p) :
    (origin, e) ∈ g.elements ∧ e.kind = .field ∧ p.kind = .field ∧
      ∃ l ∈ g.links, l.source = origin ∧ (l.target, p) ∈ g.elements := by
  obtain ⟨primitive, hprimitive, hp, horigin, he⟩ := hreplaces
  have hmem := h.element?_eq_some_iff.mp he
  have hpmem := h.element?_eq_some_iff.mp hp
  rw [primitives, Ordered.mem_natSet] at hprimitive
  rw [originsOf, Ordered.mem_natSet, List.mem_filter, Bool.and_eq_true] at horigin
  obtain ⟨hin, hfield, -⟩ := horigin
  obtain ⟨l, hl, hsource⟩ := List.mem_map.mp hin
  obtain ⟨hl, htarget⟩ := List.mem_filter.mp hl
  refine ⟨hmem, (isField_iff_of_mem h hmem).mp hfield,
    (isField_iff_of_mem h hpmem).mp (List.mem_filter.mp hprimitive).2, l, hl, hsource, ?_⟩
  rwa [beq_iff_eq.mp htarget]

/-- What was declared in the wrappers file is removed. -/
theorem mem_removedElements_of_isWrapped (hmem : (id, e) ∈ g.elements)
    (hwrapped : isWrapped e = true) : id ∈ g.planFlattening.removedElements :=
  (g.answers_planFlattening.removedElements id).mpr
    (mem_flatteningRequests_iff.mpr (Or.inl ⟨(id, e), hmem, hwrapped, rfl⟩))

theorem not_isWrapped_of_kept (hkept : (id, e) ∈ g.keptEntries g.planFlattening) :
    isWrapped e = false := by
  obtain ⟨hmem, hnot⟩ := List.mem_filter.mp hkept
  by_contra hwrapped
  rw [Bool.not_eq_false] at hwrapped
  simp [mem_removedElements_of_isWrapped hmem hwrapped] at hnot

/-- What flattening adds is the replacement of a field. -/
theorem exists_replaces (he : e ∈ g.planFlattening.addedElements) :
    ∃ origin old p, g.Replaces origin old p ∧ e = old.withPrimitive p := by
  have hrequest := g.answers_planFlattening.addedElements e he
  rcases mem_flatteningRequests_iff.mp hrequest with ⟨_, _, _, heq⟩ | ⟨_, _, _, _, _, heq⟩ |
    ⟨origin, old, p, hreplaces, heq | heq | ⟨_, _, hredirect⟩⟩
  · cases heq
  · cases heq
  · cases heq
  · exact ⟨origin, old, p, hreplaces, Request.addElement.inj heq⟩
  · rcases mem_redirectRequests_iff.mp hredirect with heq | ⟨_, _, heq⟩ <;> cases heq

/-- What is left of the wrappers file are the fields of it that are replaced. -/
theorem wrapped_flatten_iff (h : g.Valid) :
    (∃ id e, (id, e) ∈ g.flatten.elements ∧ isWrapped e = true ∧ e.key = key) ↔
      ∃ origin old p, g.Replaces origin old p ∧ isWrapped old = true ∧ old.key = key := by
  have happlied := h.applied g.planFlattening
  constructor
  · rintro ⟨id, e, hmem, hwrapped, rfl⟩
    rcases happlied.elements _ hmem with hkept | hadded
    · rw [not_isWrapped_of_kept hkept] at hwrapped
      cases hwrapped
    · obtain ⟨origin, old, p, hreplaces, rfl⟩ := exists_replaces hadded
      rw [isWrapped_withPrimitive] at hwrapped
      exact ⟨origin, old, p, hreplaces, hwrapped, (Element.key_withPrimitive _ _).symm⟩
  · rintro ⟨origin, old, p, hreplaces, hwrapped, rfl⟩
    have hadded : old.key ∈ g.planFlattening.addedElements.map Element.key := by
      rw [← Element.key_withPrimitive old p]
      refine g.answers_planFlattening.addedKeys _ (mem_flatteningRequests_iff.mpr ?_)
      exact Or.inr (Or.inr ⟨origin, old, p, hreplaces, Or.inr (Or.inl rfl)⟩)
    obtain ⟨e, he, hkey⟩ := List.mem_map.mp hadded
    obtain ⟨id, e', hmem, hkey'⟩ := mem_keys_iff.mp (happlied.added e he)
    refine ⟨id, e', hmem, ?_, hkey'.trans hkey⟩
    have hold := (hreplaces.exists_link h).1
    -- The old vertex was the only one with the identity, so this one is a replacement of it.
    rcases happlied.elements _ hmem with hkept | hadded'
    · have hkept' := List.mem_filter.mp hkept
      obtain ⟨-, rfl⟩ := h.eq_of_key hkept'.1 hold (hkey'.trans hkey)
      exact hwrapped
    · obtain ⟨origin', old', p', hreplaces', rfl⟩ := exists_replaces hadded'
      have hold' := (hreplaces'.exists_link h).1
      rw [Element.key_withPrimitive] at hkey'
      obtain ⟨-, rfl⟩ := h.eq_of_key hold' hold (hkey'.trans hkey)
      rwa [isWrapped_withPrimitive]

/-- No edge leads from a field of the wrappers file to a field. -/
def HasShallowWrappers (g : Store) : Prop :=
  ∀ l ∈ g.links, ∀ s ∈ g.element? l.source, isWrapped s = true → s.kind = .field →
    g.isField l.target = false

instance (g : Store) : Decidable g.HasShallowWrappers :=
  inferInstanceAs (Decidable (∀ l ∈ g.links, ∀ s ∈ g.element? l.source, isWrapped s = true →
    s.kind = .field → g.isField l.target = false))

/-- No field of the wrappers file is replaced. -/
theorem Replaces.not_isWrapped (h : g.Valid) (hshallow : g.HasShallowWrappers) {p : Element}
    (hreplaces : g.Replaces id e p) : isWrapped e = false := by
  obtain ⟨hmem, hkind, hpkind, l, hl, rfl, hpmem⟩ := hreplaces.exists_link h
  by_contra hwrapped
  rw [Bool.not_eq_false] at hwrapped
  have hfield := (isField_iff_of_mem h hpmem).mpr hpkind
  rw [hshallow l hl e (h.element?_eq_some_iff.mpr hmem) hwrapped hkind] at hfield
  cases hfield

end Store

/-- No field of the wrappers file is typed as a message of the set. -/
def FileSet.HasShallowWrappers (set : FileSet) : Prop :=
  ∀ f ∈ set.fieldSites, f.message.file.name = wrappersFile →
    ∀ m ∈ set.messageSites, m.fullName ≠ f.decl.nativeType

instance (set : FileSet) : Decidable set.HasShallowWrappers :=
  inferInstanceAs (Decidable (∀ f ∈ set.fieldSites, f.message.file.name = wrappersFile →
    ∀ m ∈ set.messageSites, m.fullName ≠ f.decl.nativeType))

theorem Site.Draws.kind {entries : List String} {s : Site} {e : Element} (h : s.Draws entries e) :
    e.kind = s.key.kind :=
  congrArg ElementKey.kind h.key

section Leftover

variable {set : FileSet} {g : Store} {id : VertexId} {e : Element}

theorem Store.Traced.exists_field (h : g.Traced set) (hmem : (id, e) ∈ g.elements)
    (hkind : e.kind = .field) : ∃ f ∈ set.fieldSites, e = f.element set.mapEntries := by
  obtain ⟨s, hs, hdraws⟩ := h.elements id e hmem
  obtain ⟨f, rfl⟩ := Site.exists_field (hdraws.kind.symm.trans hkind)
  exact ⟨f, FileSet.field_mem_sites.mp hs, hdraws⟩

theorem Store.Traced.exists_message (h : g.Traced set) {name : String}
    (hmem : ElementKey.message name ∈ g.keys) : ∃ m ∈ set.messageSites, m.fullName = name := by
  obtain ⟨id, e, hmem, hkey⟩ := Store.mem_keys_iff.mp hmem
  obtain ⟨s, hs, hdraws⟩ := h.elements id e hmem
  have hkind : s.key.kind = .message := hdraws.kind.symm.trans (congrArg ElementKey.kind hkey)
  obtain ⟨m, rfl⟩ := Site.exists_message hkind
  obtain rfl : e = m.element set.mapEntries := hdraws
  exact ⟨m, FileSet.message_mem_sites.mp hs, congrArg ElementKey.fullName hkey⟩

/-- A field of the wrappers file leads to nothing but enums. -/
theorem Store.Traced.hasShallowWrappers (h : g.Traced set) (hshallow : set.HasShallowWrappers) :
    g.HasShallowWrappers := by
  intro l hl s hs hwrapped hkind
  have hmem := h.valid.element?_eq_some_iff.mp hs
  obtain ⟨f, hf, rfl⟩ := h.exists_field hmem hkind
  by_contra hfield
  rw [Bool.not_eq_false] at hfield
  obtain ⟨t, ht⟩ := h.valid.exists_isField hfield
  rcases h.links l hl _ _ hmem ht.1 hkind with henum | ⟨name, htype, hmessage⟩
  · cases ht.2.symm.trans henum
  · obtain ⟨m, hm, hname⟩ := h.exists_message hmessage
    have hfile : f.message.file.name = wrappersFile := beq_iff_eq.mp hwrapped
    have htype' : f.decl.nativeType = name := Option.some.inj htype
    exact hshallow f hf hfile m hm (hname.trans htype'.symm)

/-- Flattening the graph of a set leaves nothing of the wrappers file, and no edge
to or from it, if no field of that file is typed as a message. -/
theorem flatten_removes_wrapped (h : set.HasShallowWrappers) :
    (∀ id e, (Draft.ofSet set).store.flatten.element? id = some e → Store.isWrapped e = false) ∧
      ∀ l ∈ (Draft.ofSet set).store.flatten.links, ∃ s t,
        (Draft.ofSet set).store.flatten.element? l.source = some s ∧ Store.isWrapped s = false ∧
        (Draft.ofSet set).store.flatten.element? l.target = some t ∧ Store.isWrapped t = false := by
  have htraced := Store.traced_ofSet set
  generalize (Draft.ofSet set).store = g at htraced
  have hvalid : g.flatten.Valid := (htraced.valid.applied g.planFlattening).valid
  have helements (id : VertexId) (e : Element) (he : g.flatten.element? id = some e) :
      Store.isWrapped e = false := by
    by_contra hwrapped
    rw [Bool.not_eq_false] at hwrapped
    obtain ⟨origin, old, p, hreplaces, hold, -⟩ := (Store.wrapped_flatten_iff htraced.valid).mp
      ⟨id, e, hvalid.element?_eq_some_iff.mp he, hwrapped, rfl⟩
    rw [hreplaces.not_isWrapped htraced.valid (htraced.hasShallowWrappers h)] at hold
    cases hold
  refine ⟨helements, fun l hl => ?_⟩
  obtain ⟨hsource, htarget⟩ := hvalid.ends l hl
  obtain ⟨s, hs⟩ := Option.isSome_iff_exists.mp (hvalid.isSome_element?_iff.mpr hsource)
  obtain ⟨t, ht⟩ := Option.isSome_iff_exists.mp (hvalid.isSome_element?_iff.mpr htarget)
  exact ⟨s, t, hs, helements _ _ hs, ht, helements _ _ ht⟩

end Leftover

/-- The shop refers to a wrapper, whose message and field are removed. -/
theorem flatten_removes_wrapped_shopSet :
    shopSet.HasShallowWrappers ∧ (∃ f ∈ shopSet.fieldSites, f.message.file.name = wrappersFile) ∧
      (∀ id e, (Draft.ofSet shopSet).store.flatten.element? id = some e →
        Store.isWrapped e = false) ∧
      ∀ l ∈ (Draft.ofSet shopSet).store.flatten.links, ∃ s t,
        (Draft.ofSet shopSet).store.flatten.element? l.source = some s ∧
        Store.isWrapped s = false ∧
        (Draft.ofSet shopSet).store.flatten.element? l.target = some t ∧
        Store.isWrapped t = false := by
  have hshallow : shopSet.HasShallowWrappers := by decide +kernel
  exact ⟨hshallow, by decide +kernel, flatten_removes_wrapped hshallow⟩

/-- A wrapper message whose field is typed as another message of the wrappers
file, beside a message of another file. -/
def nestedWrappers : FileSet where
  files :=
    [{ name := "google/protobuf/wrappers.proto"
       package := "google.protobuf"
       messages :=
         [{ name := "Outer"
            fields := [{ name := "inner", number := 1, type := .message
                         typeName := some ".google.protobuf.Inner" }]
            nested := []
            enums := []
            extensions := []
            oneofs := []
            isMapEntry := false },
          { name := "Inner"
            fields := [{ name := "value", number := 1, type := .string }]
            nested := []
            enums := []
            extensions := []
            oneofs := []
            isMapEntry := false }] },
     { name := "shop/cart.proto"
       package := "shop"
       messages :=
         [{ name := "Cart"
            fields := [{ name := "id", number := 1, type := .string }]
            nested := []
            enums := []
            extensions := []
            oneofs := []
            isMapEntry := false }] }]

/-- The field of the wrappers file that is typed as a wrapper is left. -/
theorem flatten_keeps_wrapped_nestedWrappers :
    ∃ id e, (Draft.ofSet nestedWrappers).store.flatten.element? id = some e ∧
      e.key = ⟨.field, "google.protobuf.Outer.inner"⟩ ∧ Store.isWrapped e = true := by
  have hkept : ((Draft.ofSet nestedWrappers).store.flatten.element? 3).any (fun e =>
      e.key = ⟨.field, "google.protobuf.Outer.inner"⟩ ∧ Store.isWrapped e = true) = true := by
    decide +kernel
  obtain ⟨e, he, hsame⟩ := (Option.any_eq_true _ _).mp hkept
  exact ⟨3, e, he, of_decide_eq_true hsame⟩

end SchemaGraph

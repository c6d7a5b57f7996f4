import SchemaGraph.Proofs.Ownership

/-!
# Labels of edges

The main result, `edges_mirrored`: in the graph of a set, before and after wrapper
messages are flattened, with or without options, every edge is labelled for the vertex that
it enters, and no two edges have the same ends (`Store.Mirrored`).

* A step enters a field or a group, and says its path type and whether it is typed as a
  message (`Edge.Mirrors`);
* an edge to a declared type leaves a field and enters a message or an enum, and says which
  of the two it is and the path type of that.

Labels are copied when an edge is made, so each sort of edge of a set is looked at once
(`FileSet.IsLink.mirrors`), and flattening must change the label with the vertex
(`Drawn.mirrored_flatten`).  A message-typed field may name an enum here; the edge to the
enum is then one of an enum.
-/

namespace SchemaGraph

/-- The label of an edge from `s` to `t` is the one for `t`. -/
def Edge.Mirrors (edge : Edge) (s t : Element) : Prop :=
  edge.type = t.pathType ∧
    match edge.kind with
    | .field => (t.kind = .field ∨ t.kind = .oneOf) ∧ edge.isMessageType = t.isMessageType
    | .typeRef => s.kind = .field ∧
        (t.kind = .message ∧ edge.isMessageType = true ∨ t.kind = .enum ∧ edge.isMessageType = false)

/-- Every edge of a store is labelled for the vertex that it enters, and is the only one
with its ends. -/
structure Store.Mirrored (g : Store) : Prop where
  labels : ∀ l ∈ g.links, ∃ s t, g.element? l.source = some s ∧ g.element? l.target = some t ∧
    l.edge.Mirrors s t
  ends : ∀ l ∈ g.links, ∀ l' ∈ g.links, l.source = l'.source → l.target = l'.target → l = l'

/-! ## Labels of the edges of a set -/

theorem Edge.mirrors_into {s t : Element} (hkind : t.kind = .field ∨ t.kind = .oneOf) :
    (Edge.into t).Mirrors s t :=
  ⟨rfl, hkind, rfl⟩

/-- The label says nothing of the source but that it is a field. -/
theorem Edge.Mirrors.of_kind {edge : Edge} {s s' t : Element} (h : edge.Mirrors s t)
    (hkind : s'.kind = s.kind) : edge.Mirrors s' t := by
  refine ⟨h.1, ?_⟩
  have hlabel := h.2
  split
  · next hstep =>
    rw [hstep] at hlabel
    exact hlabel
  · next href =>
    rw [href] at hlabel
    exact ⟨hkind.trans hlabel.1, hlabel.2⟩

/-- Only fields and groups belong to anything. -/
theorem Site.kind_of_owned {s owner : Site} (howner : s.owner? = some owner) :
    s.key.kind = .field ∨ s.key.kind = .oneOf := by
  cases s with
  | message m => cases howner
  | enum e => cases howner
  | field f => exact Or.inl rfl
  | group g => exact Or.inr rfl

/-- Each of the four sorts of edges is labelled for what it enters. -/
theorem FileSet.IsLink.mirrors {set : FileSet} {s t : Site} {edge : Edge}
    (h : set.IsLink s t edge) (options : ElementKey → List CustomOption) :
    edge.Mirrors (s.elementWith set.mapEntries options) (t.elementWith set.mapEntries options) := by
  have hkind (s : Site) : (s.elementWith set.mapEntries options).kind = s.key.kind :=
    congrArg ElementKey.kind (s.key_elementWith set.mapEntries options)
  have hinto (s t : Site) (hstep : t.key.kind = .field ∨ t.key.kind = .oneOf) :
      (Edge.into (t.element set.mapEntries)).Mirrors (s.elementWith set.mapEntries options)
        (t.elementWith set.mapEntries options) :=
    Edge.mirrors_into (t := t.elementWith set.mapEntries options) (by rwa [hkind t])
  cases h with
  | owner _ howner => exact hinto _ _ (Site.kind_of_owned howner)
  | owned _ _ _ _ howned =>
      refine hinto _ _ ?_
      rcases MessageSite.mem_owned_iff.mp howned with ⟨f, -, -, rfl⟩ | ⟨g, -, rfl⟩
      · exact Or.inl rfl
      · exact Or.inr rfl
  | message => exact ⟨rfl, rfl, Or.inl ⟨rfl, rfl⟩⟩
  | enum => exact ⟨rfl, rfl, Or.inr ⟨rfl, rfl⟩⟩

/-! ## Flattening -/

/-- The field that stands for a field when wrapper messages are flattened; any other
vertex stands for itself. -/
def Store.flattenedElement (g : Store) (e : Element) : Element :=
  match g.primitive? e with
  | some p => e.withPrimitive p
  | none => e

theorem Store.key_flattenedElement (g : Store) (e : Element) :
    (g.flattenedElement e).key = e.key := by
  rw [flattenedElement]
  split
  · exact e.key_withPrimitive _
  · rfl

/-- Only fields are typed as messages. -/
theorem Element.exists_info {e : Element} (h : e.isMessageType = true) :
    ∃ info, e.info = .field info := by
  rw [isMessageType] at h
  split at h
  · next info hinfo => exact ⟨info, hinfo⟩
  · cases h

theorem Store.isMessageType_of_primitive? {g : Store} {e p : Element}
    (h : g.primitive? e = some p) : e.isMessageType = true := by
  rw [primitive?] at h
  split at h
  · next htype => exact htype
  · cases h

/-- A retyped field is entered by a step that says its new type. -/
theorem Element.mirrors_withPrimitive {e p s : Element} (h : e.isMessageType = true) :
    (⟨.field, p.pathType, false⟩ : Edge).Mirrors s (e.withPrimitive p) := by
  obtain ⟨info, hinfo⟩ := exists_info h
  refine ⟨rfl, Or.inl ?_, ?_⟩
  · simp [kind, withPrimitive, hinfo, ElementInfo.kind]
  · simp [isMessageType, withPrimitive, hinfo]

namespace Store.Flattenable

variable {g : Store} {id : VertexId} {e s t : Element} {edge : Edge}

/-- What stands for a vertex outside the wrappers file is there. -/
theorem exists_flattenedElement (h : g.Flattenable) (hmem : (id, e) ∈ g.elements)
    (hout : isWrapped e = false) : ∃ id', (id', g.flattenedElement e) ∈ g.flatten.elements := by
  rw [flattenedElement]
  cases hprimitive : g.primitive? e with
  | none => exact ⟨id, h.flattened.kept id e hmem hout hprimitive⟩
  | some p =>
      obtain ⟨info, hinfo⟩ := Element.exists_info (isMessageType_of_primitive? hprimitive)
      obtain ⟨id', hid'⟩ := h.flattened.retyped id e p info hmem hprimitive hinfo
      refine ⟨id', ?_⟩
      dsimp only
      rwa [Element.withPrimitive, hinfo]

/-- A new label is the one for what stands for the vertex. -/
theorem mirrors_relabel (h : g.Flattenable) (ht : (id, t) ∈ g.elements)
    (hmirrors : edge.Mirrors s t) (source : ElementKey) :
    (g.relabel ⟨source, t.key, edge⟩).edge.Mirrors (g.flattenedElement s)
      (g.flattenedElement t) := by
  cases hprimitive : g.primitive? t with
  | none =>
      rw [h.relabel_of_none ht hprimitive, show g.flattenedElement t = t by
        rw [flattenedElement, hprimitive]]
      exact hmirrors.of_kind (congrArg ElementKey.kind (g.key_flattenedElement s))
  | some p =>
      rw [h.relabel_of_some ht hprimitive, show g.flattenedElement t = t.withPrimitive p by
        rw [flattenedElement, hprimitive]]
      exact Element.mirrors_withPrimitive (isMessageType_of_primitive? hprimitive)

end Store.Flattenable

namespace Drawn

open Store

variable {set : FileSet} {options : ElementKey → List CustomOption} {g : Store}

/-- Every edge of the graph of a set is labelled for the vertex that it enters. -/
theorem mirrors (h : Drawn set options g) {l : Link} (hl : l ∈ g.links) {s t : Element}
    (hs : (l.source, s) ∈ g.elements) (ht : (l.target, t) ∈ g.elements) : l.edge.Mirrors s t := by
  obtain ⟨source, hsource, rfl⟩ := h.exists_site hs
  obtain ⟨target, htarget, rfl⟩ := h.exists_site ht
  exact (h.link hl hsource htarget hs ht).mirrors options

theorem mirrored (h : Drawn set options g) : g.Mirrored where
  labels := by
    intro l hl
    obtain ⟨s, t, hs, ht, -⟩ := h.holds.valid.exists_ends hl
    exact ⟨s, t, h.holds.valid.element?_eq_some_iff.mpr hs,
      h.holds.valid.element?_eq_some_iff.mpr ht, h.mirrors hl hs ht⟩
  ends := fun _ hl _ hl' hsource htarget => h.follows.eq_of_ends hl hl' hsource htarget

/-- Flattening changes the label of an edge with the vertex that it enters. -/
theorem mirrored_flatten (h : Drawn set options g) : g.flatten.Mirrored where
  labels := by
    have hflat := h.flattenable
    have hvalid := h.follows_flatten.valid
    intro l hl
    obtain ⟨n, hname⟩ := hvalid.exists_nameOf? hl
    have hn := hflat.flattened.links.mem_iff.mp (mem_namedLinks_iff.mpr ⟨l, hl, hname⟩)
    obtain ⟨old, hold, s, t, hs, ht, hsout, htout, rfl⟩ := hflat.mem_relabelled_iff.mp hn
    obtain ⟨hskey, htkey, hedge⟩ := nameOf?_eq_some_iff.mp hname
    rw [source_relabel] at hskey
    rw [target_relabel] at htkey
    -- The ends are found again by identity, since retyped fields have new numbers.
    have hfound {id : VertexId} {e : Element} {i : VertexId} (hmem : (id, e) ∈ g.elements)
        (hout : isWrapped e = false) (hkey : g.flatten.keyOf? i = some e.key) :
        g.flatten.element? i = some (g.flattenedElement e) := by
      obtain ⟨id', hid'⟩ := hflat.exists_flattenedElement hmem hout
      have hkey' := hvalid.keyOf?_of_mem hid'
      rw [g.key_flattenedElement] at hkey'
      rw [hvalid.eq_of_keyOf? hkey hkey']
      exact hvalid.element?_eq_some_iff.mpr hid'
    refine ⟨_, _, hfound hs hsout hskey, hfound ht htout htkey, ?_⟩
    rw [hedge]
    exact hflat.mirrors_relabel ht (h.mirrors hold hs ht) s.key
  ends := fun _ hl _ hl' hsource htarget => h.follows_flatten.eq_of_ends hl hl' hsource htarget

end Drawn

/-- In the graph of a set every edge is labelled for the vertex that it enters and is the
only one with its ends, before and after wrapper messages are flattened, and whatever
options are attached. -/
theorem edges_mirrored {set : FileSet} (h : set.UniqueNames) (hwrappers : set.PlainWrappers) :
    (Draft.ofSet set).store.Mirrored ∧ (Draft.ofSet set).store.flatten.Mirrored ∧
      ∀ registry encoded g n,
        Draft.attach registry encoded (Draft.ofSet set).store = .ok (g, n) →
          g.Mirrored ∧ g.flatten.Mirrored := by
  have hattached {registry : Registry} {encoded : List (ElementKey × List UInt8)} {g : Store}
      {n : Nat} (hattach : Draft.attach registry encoded (Draft.ofSet set).store = .ok (g, n)) :
      g.Mirrored ∧ g.flatten.Mirrored := by
    obtain ⟨options, hdrawn⟩ := drawn_of_attach h hwrappers hattach
    exact ⟨hdrawn.mirrored, hdrawn.mirrored_flatten⟩
  obtain ⟨hbefore, hafter⟩ := hattached
    (rfl : Draft.attach (Registry.ofSet set) [] (Draft.ofSet set).store = .ok (_, 0))
  exact ⟨hbefore, hafter, fun _ _ _ _ => hattached⟩

/-- A message whose field is typed as a message of the wrappers file. -/
def boxSet : FileSet where
  files :=
    [{ name := wrappersFile
       package := "p"
       messages :=
         [{ name := "W", fields := [{ name := "v", number := 1, type := .string }]
            nested := [], enums := [], extensions := [], oneofs := [], isMapEntry := false }] },
     { name := "m"
       package := "m"
       messages :=
         [{ name := "A"
            fields := [{ name := "x", number := 1, type := .message, typeName := some ".p.W" }]
            nested := [], enums := [], extensions := [], oneofs := [], isMapEntry := false }] }]

/-- The step into the field says that it is a message, and once the wrapper is flattened
that it is a string. -/
theorem edges_mirrored_boxSet :
    boxSet.UniqueNames ∧ boxSet.PlainWrappers ∧
      Draft.attach (Registry.ofSet boxSet) [] (Draft.ofSet boxSet).store =
        .ok ((Draft.ofSet boxSet).store, 0) ∧
      (Draft.ofSet boxSet).store.Mirrored ∧ (Draft.ofSet boxSet).store.flatten.Mirrored ∧
      (Draft.ofSet boxSet).store.namedLinks.map PendingLink.edge =
        [⟨.typeRef, "[type=p_W]", true⟩, ⟨.field, "[type=string]", false⟩,
          ⟨.field, "[type=p_W]", true⟩, ⟨.field, "[type=string]", false⟩] ∧
      (Draft.ofSet boxSet).store.flatten.namedLinks.map PendingLink.edge =
        [⟨.field, "[type=string]", false⟩] := by
  have hnames : boxSet.UniqueNames := by decide +kernel
  have hwrappers : boxSet.PlainWrappers := by decide +kernel
  have hattach : Draft.attach (Registry.ofSet boxSet) [] (Draft.ofSet boxSet).store =
      .ok ((Draft.ofSet boxSet).store, 0) := rfl
  obtain ⟨hbefore, hafter⟩ := (edges_mirrored hnames hwrappers).2.2 _ _ _ _ hattach
  exact ⟨hnames, hwrappers, hattach, hbefore, hafter, by decide +kernel, by decide +kernel⟩

end SchemaGraph

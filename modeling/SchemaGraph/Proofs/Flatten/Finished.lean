import SchemaGraph.Proofs.Ownership
import SchemaGraph.Proofs.Schema.Unfold

/-!
# Finished graphs as unfoldings

What a finished graph has to do with the unfolding of its set.  `Store.Unfolds` says
that

* each vertex says what its declaration is shown as (`Site.IsShownAs`);
* the steps of the graph lead from each vertex to what follows its declaration, and
  are labelled with the path type of this.

The graph of a set unfolds the set with wrapper messages kept (`Drawn.unfolds`), and
with wrapper messages flattened once they are (`Drawn.unfolds_flatten`).  Edges to
the type of a field are no steps and are not described here.
-/

namespace SchemaGraph

/-- What the vertex of a declaration says in a finished graph. -/
structure Site.IsShownAs (set : FileSet) (flat : Bool) (options : ElementKey → List CustomOption)
    (s : Site) (e : Element) : Prop where
  key : e.key = s.key
  name : e.name = s.name
  pathType : e.pathType = (set.shape flat s).1
  dataType : e.dataType = (set.shape flat s).2
  comment : e.comment = s.comment
  options : e.options = options s.key
  nativeType : e.kind = .field → e.nativeType = some s.nativeType
  isNullable : SchemaField.isNullable e = s.isNullable

/-- The vertices of a store are shown as the declarations of a set, and its steps
are those of the unfolding. -/
structure Store.Unfolds (g : Store) (set : FileSet) (flat : Bool)
    (options : ElementKey → List CustomOption) : Prop where
  follows : g.Follows set
  vertices : ∀ id e, (id, e) ∈ g.elements → ∃ s ∈ set.sites, s.IsShownAs set flat options e
  steps : ∀ n ∈ g.namedLinks, n.edge.kind = .field → ∃ s ∈ set.sites, ∃ t ∈ set.sites,
    n.source = s.key ∧ n.target = t.key ∧ set.Continues flat s t ∧
      n.edge.type = (set.shape flat t).1
  exists_step : ∀ s ∈ set.sites, s.key ∈ g.keys → ∀ t, set.Continues flat s t →
    ∃ n ∈ g.namedLinks, n.edge.kind = .field ∧ n.source = s.key ∧ n.target = t.key

section Shown

variable {set : FileSet} {flat : Bool} {options : ElementKey → List CustomOption} {s t : Site}
variable {f p : FieldSite} {edge : Edge}

/-- A vertex that is as it was drawn. -/
theorem Site.isShownAs_elementWith (hids : set.Identifiers) (hs : s ∈ set.sites)
    (hshape : set.shape flat s = set.shape false s) :
    s.IsShownAs set flat options (s.elementWith set.mapEntries options) where
  key := s.key_elementWith set.mapEntries options
  name := s.name_element set.mapEntries (hids s hs)
  pathType := by
    rw [hshape, ← s.shape_element]
    rfl
  dataType := by
    rw [hshape, ← s.shape_element]
    rfl
  comment := s.comment_element set.mapEntries
  options := rfl
  nativeType := by
    intro hkind
    obtain ⟨f, rfl⟩ := Site.exists_field
      ((congrArg ElementKey.kind (s.key_elementWith set.mapEntries options)).symm.trans hkind)
    rfl
  isNullable := by cases s <;> rfl

/-- A field that is typed as what its wrapper message wraps. -/
theorem Site.isShownAs_withPrimitive (hids : set.Identifiers) (hf : Site.field f ∈ set.sites)
    (hwrapped : set.wrapped? f = some p) :
    (Site.field f).IsShownAs set true options
      (((Site.field f).elementWith set.mapEntries options).withPrimitive
        ((Site.field p).elementWith set.mapEntries options)) := by
  have hshape : set.shape true (.field f) = p.decl.shape set.mapEntries := by
    rw [FileSet.shape, FileSet.shown, if_pos rfl, hwrapped]
    rfl
  constructor
  · rw [Element.key_withPrimitive, Site.key_elementWith]
  · exact (Site.field f).name_element set.mapEntries (hids _ hf)
  · rw [hshape]
    rfl
  · rw [hshape]
    rfl
  · rfl
  · rfl
  · exact fun _ => rfl
  · rfl

/-- A step is labelled with the path type of what it enters. -/
theorem FileSet.IsLink.edge_eq (h : set.IsLink s t edge) (hkind : edge.kind = .field) :
    edge = Edge.into (t.element set.mapEntries) := by
  cases h with
  | owner => rfl
  | owned => rfl
  | message => cases hkind
  | enum => cases hkind

/-- Every edge into a field is a step. -/
theorem FileSet.IsLink.kind_of_field (h : set.IsLink s (.field f) edge) : edge.kind = .field := by
  cases h with
  | owner => rfl
  | owned => rfl

theorem Store.kind_relabel (g : Store) {n : PendingLink} (hkind : n.edge.kind = .field) :
    (g.relabel n).edge.kind = .field := by
  rw [relabel]
  split
  · rfl
  · exact hkind

end Shown

namespace Drawn

open Store

variable {set : FileSet} {options : ElementKey → List CustomOption} {g : Store} {s : Site}
variable {e : Element} {f p : FieldSite}

/-- The graph of a set unfolds it. -/
theorem unfolds (h : Drawn set options g) (hids : set.Identifiers) :
    g.Unfolds set false options where
  follows := h.follows
  vertices := by
    intro id e hmem
    obtain ⟨s, hs, rfl⟩ := h.exists_site hmem
    exact ⟨s, hs, s.isShownAs_elementWith hids hs rfl⟩
  steps := by
    intro n hn hkind
    obtain ⟨s, hs, t, ht, hsource, htarget, hlink⟩ :=
      h.names.uniqueKeys.isLink (h.holds.links.mem_iff.mp hn)
    refine ⟨s, hs, t, ht, hsource, htarget, hlink.continues hkind (fun hflat => by cases hflat), ?_⟩
    rw [hlink.edge_eq hkind, ← t.shape_element]
    rfl
  exists_step := by
    intro s hs _ t hcontinues
    obtain ⟨-, hlink, -⟩ := hcontinues.link h.names.uniqueKeys hs
    exact ⟨_, h.holds.links.mem_iff.mpr hlink, rfl, rfl, rfl⟩

/-- The wrapped field that is looked up is the one there is. -/
theorem wrapped?_eq_some_iff (h : Drawn set options g) (hf : f ∈ set.fieldSites) :
    set.wrapped? f = some p ↔ set.Wraps f p := by
  refine ⟨FileSet.wraps_of_wrapped? hf, fun hwraps => ?_⟩
  -- A wrapper message has one field, so the first one found is the right one.
  cases hwrapped : set.wrapped? f with
  | some q => rw [h.wraps_unique hwraps (FileSet.wraps_of_wrapped? hf hwrapped)]
  | none => exact absurd hwrapped (FileSet.wrapped?_ne_none hwraps)

/-- A vertex without a primitive is shown as it was drawn. -/
theorem shape_of_primitive?_eq_none (h : Drawn set options g) (hs : s ∈ set.sites)
    (hnone : g.primitive? (s.elementWith set.mapEntries options) = none) :
    set.shape true s = set.shape false s := by
  cases s with
  | message m => rfl
  | group G => rfl
  | enum e => rfl
  | field f =>
      have hwrapped : set.wrapped? f = none := by
        by_contra hsome
        obtain ⟨p, hp⟩ := Option.ne_none_iff_exists'.mp hsome
        have hwraps := FileSet.wraps_of_wrapped? (FileSet.field_mem_sites.mp hs) hp
        rw [(h.primitive?_eq_some_iff hs).mpr ⟨f, p, rfl, hwraps, rfl⟩] at hnone
        cases hnone
      rw [FileSet.shape, FileSet.shape, FileSet.shown, if_pos rfl, hwrapped]
      rfl

/-- A vertex with a primitive is shown with its types. -/
theorem isShownAs_of_primitive? (h : Drawn set options g) (hids : set.Identifiers)
    (hs : s ∈ set.sites)
    (hsome : g.primitive? (s.elementWith set.mapEntries options) = some e) :
    s.IsShownAs set true options ((s.elementWith set.mapEntries options).withPrimitive e) := by
  obtain ⟨f, p, rfl, hwraps, rfl⟩ := (h.primitive?_eq_some_iff hs).mp hsome
  exact Site.isShownAs_withPrimitive hids hs
    ((h.wrapped?_eq_some_iff (FileSet.field_mem_sites.mp hs)).mpr hwraps)

/-- The graph of a set unfolds it with wrapper messages flattened once they are. -/
theorem unfolds_flatten (h : Drawn set options g) (hids : set.Identifiers) :
    g.flatten.Unfolds set true options where
  follows := h.follows_flatten
  vertices := by
    intro id e hmem
    rcases h.flattenable.mem_elements_iff.mp (h.flattenable.flatten_holds.1.mem hmem) with
      ⟨id', old, p, hold, hsome, rfl⟩ | ⟨id', hold, -, hnone⟩
    · obtain ⟨s, hs, rfl⟩ := h.exists_site hold
      exact ⟨s, hs, h.isShownAs_of_primitive? hids hs hsome⟩
    · obtain ⟨s, hs, rfl⟩ := h.exists_site hold
      exact ⟨s, hs, s.isShownAs_elementWith hids hs (h.shape_of_primitive?_eq_none hs hnone)⟩
  steps := by
    intro n hn hkind
    obtain ⟨l, hl, s, t, hs, ht, -, hout, rfl⟩ :=
      h.flattenable.mem_relabelled_iff.mp (h.flattenable.flattened.links.mem_iff.mp hn)
    obtain ⟨s, hsite, rfl⟩ := h.exists_site hs
    obtain ⟨t, htsite, rfl⟩ := h.exists_site ht
    have hlink := h.link hl hsite htsite hs ht
    have hflat : ¬ t.isWrapped := by
      rwa [← Bool.not_eq_true, isWrapped_elementWith] at hout
    refine ⟨s, hsite, t, htsite, ?_, ?_, ?_⟩
    · rw [source_relabel]
      exact s.key_elementWith _ _
    · rw [target_relabel]
      exact t.key_elementWith _ _
    · -- An edge has a new label if it leads to a field that is typed as a wrapper message.
      cases hprimitive : g.primitive? (t.elementWith set.mapEntries options) with
      | some p =>
          rw [h.flattenable.relabel_of_some ht hprimitive]
          obtain ⟨f, q, rfl, -⟩ := h.exists_wraps htsite (by rw [hprimitive]; simp)
          exact ⟨hlink.continues hlink.kind_of_field fun _ => hflat,
            (h.isShownAs_of_primitive? hids htsite hprimitive).pathType⟩
      | none =>
          rw [h.flattenable.relabel_of_none ht hprimitive] at hkind ⊢
          refine ⟨hlink.continues hkind fun _ => hflat, ?_⟩
          rw [h.shape_of_primitive?_eq_none htsite hprimitive, ← t.shape_element,
            hlink.edge_eq hkind]
          rfl
  exists_step := by
    intro s hs hkey t hcontinues
    obtain ⟨ht, hlink, hhome⟩ := hcontinues.link h.names.uniqueKeys hs
    -- What follows a declaration that stays is outside the wrappers file as well.
    have hout := (h.mem_keys_flatten_iff hs).mp hkey
    have houtside := h.isOutside_of_sites hs ht hout (hhome rfl hout)
      (Edge.into (t.element set.mapEntries))
    refine ⟨_, h.flattenable.flattened.links.mem_iff.mpr (List.mem_map_of_mem
      (List.mem_filter.mpr ⟨h.holds.links.mem_iff.mpr hlink, houtside⟩)), ?_, ?_, ?_⟩
    · exact g.kind_relabel rfl
    · rw [source_relabel]
    · rw [target_relabel]

end Drawn

end SchemaGraph

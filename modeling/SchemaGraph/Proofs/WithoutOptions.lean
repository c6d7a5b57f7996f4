import SchemaGraph.Proofs.Schema.Traced
import SchemaGraph.Proofs.Wire.Frame
import SchemaGraph.Graph.Rooted

/-!
# What custom options do not touch

Emptying the options of all vertices (`Store.withoutOptions`) commutes with
everything that is done to a store once its references are resolved: removals and
additions, the plan of flattening and the patch it makes, and the choice of a root.
Attaching options is undone by it (`Draft.withoutOptions_attach`).

So a graph that is built from bytes is the graph of the decoded set with options in
some of its vertices, under the same numbers, and no set whose graph cannot be
built has one with options (`RootedGraph.ofSet_of_ofBytes`).
-/

namespace SchemaGraph

/-- The element without custom options. -/
def Element.withoutOptions (e : Element) : Element := e.withOptions []

/-- The patch that adds its elements without custom options. -/
def Patch.withoutOptions (p : Patch) : Patch :=
  { p with addedElements := p.addedElements.map Element.withoutOptions }

/-- The store without custom options. -/
def Store.withoutOptions (g : Store) : Store :=
  { g with elements := g.elements.map fun entry => (entry.1, entry.2.withoutOptions) }

/-- The graph without custom options. -/
def RootedGraph.withoutOptions (g : RootedGraph) : RootedGraph :=
  { g with store := g.store.withoutOptions, root := g.root.withoutOptions }

namespace Patch

theorem withoutOptions_removeLink (p : Patch) (id : EdgeId) :
    p.withoutOptions.removeLink id = (p.removeLink id).withoutOptions := rfl

theorem withoutOptions_removeElement (p : Patch) (id : VertexId) :
    p.withoutOptions.removeElement id = (p.removeElement id).withoutOptions := rfl

theorem withoutOptions_addElement (p : Patch) (e : Element) :
    p.withoutOptions.addElement e.withoutOptions = (p.addElement e).withoutOptions := by
  have hany : (p.withoutOptions.addedElements.any fun other => other.key == e.withoutOptions.key) =
      p.addedElements.any fun other => other.key == e.key := List.any_map
  rw [addElement, addElement, hany]
  split
  · rfl
  · rw [withoutOptions, withoutOptions, List.map_append]
    rfl

theorem withoutOptions_addLink (p : Patch) (l : PendingLink) :
    p.withoutOptions.addLink l = (p.addLink l).withoutOptions := by
  rw [addLink, addLink, show p.withoutOptions.addedLinks = p.addedLinks from rfl]
  split <;> rfl

end Patch

namespace Store

/-! ## Looking things up -/

variable (g : Store)

@[simp] theorem withoutOptions_find? (key : ElementKey) :
    g.withoutOptions.find? key = g.find? key := rfl

@[simp] theorem withoutOptions_incoming (id : VertexId) :
    g.withoutOptions.incoming id = g.incoming id := rfl

@[simp] theorem withoutOptions_element? (id : VertexId) :
    g.withoutOptions.element? id = (g.element? id).map Element.withoutOptions :=
  lookup_map_snd Element.withoutOptions g.elements id

theorem withoutOptions_keys : g.withoutOptions.keys = g.keys := by
  rw [keys, keys, withoutOptions, List.map_map]
  rfl

theorem Valid.of_withoutOptions {g : Store} (h : g.withoutOptions.Valid) : g.Valid := by
  have hids : g.withoutOptions.ids = g.ids := by
    rw [ids, ids, withoutOptions, List.map_map]
    rfl
  refine ⟨hids ▸ h.vertexIds, h.edgeIds, ?_, g.withoutOptions_keys ▸ h.keys, hids ▸ h.ends⟩
  have hindex := h.index
  rw [withoutOptions, List.map_map] at hindex
  exact hindex

/-- A test that options do not matter to picks the same vertices. -/
theorem withoutOptions_filter {p : VertexId × Element → Bool}
    (hp : ∀ entry, p (entry.1, entry.2.withoutOptions) = p entry) :
    g.withoutOptions.elements.filter p =
      (g.elements.filter p).map fun entry => (entry.1, entry.2.withoutOptions) := by
  rw [withoutOptions, List.filter_map]
  exact congrArg _ (List.filter_congr fun entry _ => hp entry)

/-! ## Single changes -/

theorem place_withoutOptions (id : VertexId) (e : Element)
    (elements : List (VertexId × Element)) :
    place id e.withoutOptions (elements.map fun entry => (entry.1, entry.2.withoutOptions)) =
      (place id e elements).map fun entry => (entry.1, entry.2.withoutOptions) := by
  rw [place, place, Ordered.insert_eq_orderedInsert, Ordered.insert_eq_orderedInsert]
  symm
  apply List.map_orderedInsert
  · exact fun _ _ => Iff.rfl
  · exact fun _ _ => Iff.rfl

theorem withoutOptions_addElement (e : Element) :
    (g.withoutOptions.addElement e.withoutOptions).2 = (g.addElement e).2.withoutOptions := by
  rw [addElement, addElement, withoutOptions_find?,
    show e.withoutOptions.key = e.key from rfl]
  cases g.find? e.key with
  | some id => rfl
  | none =>
      exact congrArg (fun elements => { g with
        elements, index := (e.key, g.vertexIds.next) :: g.index
        vertexIds := g.vertexIds.take }) (place_withoutOptions _ e g.elements)

theorem withoutOptions_removeLink (id : EdgeId) :
    g.withoutOptions.removeLink id = (g.removeLink id).withoutOptions := by
  rw [removeLink, removeLink, show g.withoutOptions.link? id = g.link? id from rfl]
  split <;> rfl

theorem withoutOptions_removeElement (id : VertexId) :
    g.withoutOptions.removeElement id = (g.removeElement id).withoutOptions := by
  rw [removeElement, removeElement, withoutOptions_element?]
  cases g.element? id with
  | none => rfl
  | some e =>
      dsimp only [Option.map_some]
      rw [withoutOptions_filter g fun _ => rfl]
      rfl

theorem withoutOptions_connect (l : PendingLink) :
    g.withoutOptions.connect l = (g.connect l).withoutOptions := by
  rw [connect, connect, withoutOptions_find?, withoutOptions_find?]
  split <;> rfl

/-- Options of a vertex that are replaced leave no trace once all are emptied. -/
theorem withoutOptions_update (id : VertexId) (options : List CustomOption) :
    (g.update id fun e => e.withOptions options).withoutOptions = g.withoutOptions := by
  rw [withoutOptions, withoutOptions, update, List.map_map]
  refine congrArg (fun elements => { g with elements }) (List.map_congr_left ?_)
  rintro ⟨i, e⟩ -
  rw [Function.comp_apply]
  dsimp only
  split <;> rfl

/-! ## Patches -/

theorem withoutOptions_apply (p : Patch) :
    g.withoutOptions.apply p.withoutOptions = (g.apply p).withoutOptions := by
  have helements : g.withoutOptions.applyElements p.withoutOptions =
      (g.applyElements p).withoutOptions := by
    rw [applyElements, applyElements]
    dsimp only [Patch.withoutOptions]
    rw [List.foldl_map, List.foldl_hom withoutOptions fun g id => g.withoutOptions_removeLink id,
      List.foldl_hom withoutOptions fun g id => g.withoutOptions_removeElement id,
      List.foldl_hom withoutOptions fun g e => g.withoutOptions_addElement e]
  rw [apply, apply, helements]
  exact List.foldl_hom withoutOptions fun g l => g.withoutOptions_connect l

theorem withoutOptions_isField (id : VertexId) : g.withoutOptions.isField id = g.isField id := by
  rw [isField, isField, withoutOptions_element?]
  cases g.element? id <;> rfl

theorem withoutOptions_wrappers : g.withoutOptions.wrappers = g.wrappers := by
  rw [wrappers, wrappers, withoutOptions_filter g fun _ => rfl, List.map_map]
  rfl

theorem withoutOptions_primitives : g.withoutOptions.primitives = g.primitives := by
  rw [primitives, primitives, withoutOptions_wrappers, funext g.withoutOptions_isField]
  rfl

theorem withoutOptions_originsOf (primitive : VertexId) :
    g.withoutOptions.originsOf primitive = g.originsOf primitive := by
  rw [originsOf, originsOf, withoutOptions_wrappers, withoutOptions_incoming,
    funext g.withoutOptions_isField]

theorem withoutOptions_planOrigin (primitive : Element) (p : Patch) (origin : VertexId) :
    g.withoutOptions.planOrigin primitive.withoutOptions p.withoutOptions origin =
      (g.planOrigin primitive p origin).withoutOptions := by
  rw [planOrigin, planOrigin, withoutOptions_element?]
  cases g.element? origin with
  | none => rfl
  | some e =>
      dsimp only [Option.map_some]
      rw [← Patch.withoutOptions_addElement]
      refine congrArg (Patch.addElement · (e.withPrimitive primitive).withoutOptions) ?_
      rw [Patch.withoutOptions_removeElement, withoutOptions_incoming]
      refine List.foldl_hom Patch.withoutOptions fun p l => ?_
      rw [withoutOptions_element?]
      cases g.element? l.source with
      | none => rfl
      | some source => exact (p.removeLink l.id).withoutOptions_addLink _

theorem withoutOptions_planPrimitive (p : Patch) (primitive : VertexId) :
    g.withoutOptions.planPrimitive p.withoutOptions primitive =
      (g.planPrimitive p primitive).withoutOptions := by
  rw [planPrimitive, planPrimitive, withoutOptions_element?]
  cases g.element? primitive with
  | none => rfl
  | some e =>
      dsimp only [Option.map_some]
      rw [withoutOptions_originsOf, withoutOptions_incoming,
        List.foldl_hom Patch.withoutOptions fun p l => p.withoutOptions_removeLink l.id]
      exact List.foldl_hom Patch.withoutOptions fun p origin =>
        g.withoutOptions_planOrigin e p origin

/-- The plan of flattening asks for the same changes, without options in what it
adds. -/
theorem withoutOptions_planFlattening :
    g.withoutOptions.planFlattening = g.planFlattening.withoutOptions := by
  have hremovals : g.withoutOptions.planRemovals = g.planRemovals.withoutOptions := by
    rw [planRemovals, planRemovals, withoutOptions_filter g fun _ => rfl, List.foldl_map]
    show List.foldl _ (Patch.withoutOptions {}) _ = _
    exact List.foldl_hom Patch.withoutOptions fun p entry => p.withoutOptions_removeElement entry.1
  rw [planFlattening, planFlattening, withoutOptions_primitives, hremovals]
  exact List.foldl_hom Patch.withoutOptions fun p id => g.withoutOptions_planPrimitive p id

theorem withoutOptions_flatten : g.withoutOptions.flatten = g.flatten.withoutOptions := by
  rw [flatten, flatten, withoutOptions_planFlattening, withoutOptions_apply]

/-! ## Roots -/

theorem withoutOptions_detectRoot (file : String) :
    g.withoutOptions.detectRoot file = g.detectRoot file := by
  have hcandidates : g.withoutOptions.rootCandidates file = g.rootCandidates file := by
    have hstands (id : VertexId) : g.withoutOptions.standsAlone id = g.standsAlone id := rfl
    rw [rootCandidates, rootCandidates]
    simp only [hstands]
    rw [withoutOptions_filter g fun _ => rfl, List.map_map]
    rfl
  rw [detectRoot, detectRoot, hcandidates]

theorem withoutOptions_selectRoot (set : FileSet) (options : GraphOptions) :
    set.selectRoot options g.withoutOptions = set.selectRoot options g := by
  rw [FileSet.selectRoot, FileSet.selectRoot]
  cases options.messageName with
  | some name => rfl
  | none =>
      cases set.targetFile options.filename with
      | error fault => rfl
      | ok file => exact g.withoutOptions_detectRoot file.name

end Store

/-! ## Whole graphs -/

namespace Draft

/-- Attaching options changes options only. -/
theorem withoutOptions_attach {registry : Registry} {encoded : List (ElementKey × List UInt8)}
    {g g' : Store} {n : Nat} (h : attach registry encoded g = .ok (g', n)) :
    g'.withoutOptions = g.withoutOptions := by
  induction encoded generalizing g n with
  | nil =>
      cases h
      rfl
  | cons entry rest ih =>
      obtain ⟨key, bytes⟩ := entry
      rw [attach] at h
      split at h
      · exact ih h
      · next id hfind =>
        split at h
        · cases h
        · exact ih h
        · next options hoptions hdecode =>
          split at h
          · cases h
          · next last hattach =>
            cases h
            rw [ih hattach, Store.withoutOptions_update]

/-- A set has no options before they are attached. -/
theorem withoutOptions_ofSet (set : FileSet) :
    (ofSet set).store.withoutOptions = (ofSet set).store := by
  have hbare : ∀ entry ∈ (ofSet set).store.elements, (entry.1, entry.2.withoutOptions) = entry := by
    rintro ⟨id, e⟩ hmem
    refine Prod.ext rfl (show e.withoutOptions = e from ?_)
    obtain ⟨s, -, hdraws⟩ := (Store.traced_ofSet set).elements id e hmem
    cases s with
    | message m => rw [show e = _ from hdraws]; rfl
    | field f => rw [show e = _ from hdraws]; rfl
    | group G => obtain ⟨members, rfl⟩ := hdraws; rfl
    | enum s => rw [show e = _ from hdraws]; rfl
  rw [Store.withoutOptions]
  exact congrArg (fun elements => { (ofSet set).store with elements })
    ((List.map_congr_left hbare).trans (List.map_id _))

end Draft

namespace RootedGraph

/-- Both readings and the decoding of options come before a graph is built from bytes. -/
theorem ofBytes_eq_ok_iff {bs : Wire.Bytes} {options : GraphOptions} {r : RootedGraph} :
    ofBytes bs options = .ok r ↔ ∃ set encoded g n, FileSet.decode bs = .ok set ∧
      EncodedOptions.decode bs = .ok encoded ∧
      Draft.attach (Registry.ofSet set) encoded.entries (Draft.ofSet set).store = .ok (g, n) ∧
      build set options g = .ok r := by
  constructor
  · intro h
    rw [ofBytes] at h
    split at h
    · cases h
    next set hset =>
    split at h
    · cases h
    next encoded hencoded =>
    split at h
    · cases h
    next g n hattach => exact ⟨set, encoded, g, n, hset, hencoded, hattach, h⟩
  · rintro ⟨set, encoded, g, n, hset, hencoded, hattach, hbuild⟩
    rw [ofBytes, hset]
    dsimp only
    rw [hencoded]
    dsimp only
    rw [hattach]
    exact hbuild

/-- The rest of the construction does not look at options. -/
theorem withoutOptions_build (set : FileSet) (options : GraphOptions) (g : Store) :
    build set options g.withoutOptions = (build set options g).map withoutOptions := by
  have hstore : (if options.flattenWrappers then g.withoutOptions.flatten else g.withoutOptions) =
      (if options.flattenWrappers then g.flatten else g).withoutOptions := by
    rw [g.withoutOptions_flatten, apply_ite Store.withoutOptions]
  rw [build, build, hstore, finish, finish, Store.withoutOptions_selectRoot]
  generalize (if options.flattenWrappers then g.flatten else g) = g'
  cases set.selectRoot options g' with
  | error fault => rfl
  | ok id =>
      dsimp only
      rw [Store.withoutOptions_element?]
      cases g'.element? id <;> rfl

/-- The graph of a set is what is left of the graph with options. -/
theorem ofSet_of_attach {set : FileSet} {options : GraphOptions} {registry : Registry}
    {encoded : List (ElementKey × List UInt8)} {g : Store} {n : Nat}
    (h : Draft.attach registry encoded (Draft.ofSet set).store = .ok (g, n)) :
    ofSet set options = (build set options g).map withoutOptions := by
  rw [ofSet, ← withoutOptions_build, Draft.withoutOptions_attach h, Draft.withoutOptions_ofSet]

/-- From bytes the graph of the decoded set is built, with options, or none. -/
theorem withoutOptions_ofBytes {bs : Wire.Bytes} {set : FileSet}
    (hdecode : FileSet.decode bs = .ok set) (options : GraphOptions) :
    (∃ e, ofBytes bs options = .error e) ∨
      (ofBytes bs options).map withoutOptions = ofSet set options := by
  rw [ofBytes, hdecode]
  dsimp only
  cases EncodedOptions.decode bs with
  | error e => exact Or.inl ⟨_, rfl⟩
  | ok encoded =>
      dsimp only
      cases hattach : Draft.attach (Registry.ofSet set) encoded.entries
          (Draft.ofSet set).store with
      | error e => exact Or.inl ⟨_, rfl⟩
      | ok attached => exact Or.inr (ofSet_of_attach hattach).symm

/-- A graph that is built from bytes is the graph of the decoded set, but for the
options of its vertices, and a set without a graph has none with options. -/
theorem ofSet_of_ofBytes (bs : Wire.Bytes) (options : GraphOptions) :
    (∀ g, ofBytes bs options = .ok g →
      ∃ set, FileSet.decode bs = .ok set ∧ ofSet set options = .ok g.withoutOptions) ∧
    ∀ set e, FileSet.decode bs = .ok set → ofSet set options = .error e →
      ∃ e', ofBytes bs options = .error e' := by
  constructor
  · intro g hbuilt
    cases hdecode : FileSet.decode bs with
    | error e =>
        rw [ofBytes, hdecode] at hbuilt
        cases hbuilt
    | ok set =>
        rcases withoutOptions_ofBytes hdecode options with ⟨e, hfails⟩ | hset
        · cases hbuilt.symm.trans hfails
        · rw [hbuilt] at hset
          exact ⟨set, rfl, hset.symm⟩
  · intro set e hdecode hfails
    rcases withoutOptions_ofBytes hdecode options with herror | hset
    · exact herror
    · rw [hfails] at hset
      cases hbuilt : ofBytes bs options with
      | error e' => exact ⟨e', rfl⟩
      | ok g =>
          rw [hbuilt] at hset
          cases hset

/-- A message with a field that is typed as a wrapper message and has an option. -/
def optionBytes : Wire.Bytes :=
  [10, 51, 10, 30, 103, 111, 111, 103, 108, 101, 47, 112, 114, 111, 116, 111, 98, 117, 102, 47,
    119, 114, 97, 112, 112, 101, 114, 115, 46, 112, 114, 111, 116, 111, 18, 1, 112, 34, 14, 10,
    1, 87, 18, 9, 10, 1, 118, 24, 1, 32, 1, 40, 9, 10, 78, 10, 1, 109, 18, 1, 109, 34, 25, 10,
    1, 65, 18, 20, 10, 1, 120, 24, 1, 32, 1, 40, 11, 50, 4, 46, 112, 46, 87, 66, 3, 192, 62, 1,
    58, 43, 10, 3, 104, 105, 100, 18, 29, 46, 103, 111, 111, 103, 108, 101, 46, 112, 114, 111,
    116, 111, 98, 117, 102, 46, 70, 105, 101, 108, 100, 79, 112, 116, 105, 111, 110, 115, 24,
    232, 7, 32, 1, 40, 8]

/-- The option is there when the field is replaced, and the graph of the set is the
same without it; a root that is not there is missed by both. -/
theorem ofSet_of_ofBytes_optionBytes :
    (∃ g set, ofBytes optionBytes { messageName := some "m.A" } = .ok g ∧
      (g.store.elements.map fun entry => entry.2.options) =
        [[], [⟨"m.hid", 1000, .bool true⟩]] ∧
      FileSet.decode optionBytes = .ok set ∧
      ofSet set { messageName := some "m.A" } = .ok g.withoutOptions) ∧
    ∃ set e e', FileSet.decode optionBytes = .ok set ∧
      ofSet set { messageName := some "m.B" } = .error e ∧
      ofBytes optionBytes { messageName := some "m.B" } = .error e' := by
  have hoptions : (ofBytes optionBytes { messageName := some "m.A" }).map
      (fun g => g.store.elements.map fun entry => entry.2.options) =
        .ok [[], [⟨"m.hid", 1000, .bool true⟩]] := by decide +kernel
  have hmissed : (FileSet.decode optionBytes).map
      (fun set => (ofSet set { messageName := some "m.B" }).isOk) = .ok false := by
    decide +kernel
  constructor
  · obtain ⟨g, hbuilt, hoptions⟩ := exists_of_map_ok hoptions
    obtain ⟨set, hset, hgraph⟩ := (ofSet_of_ofBytes optionBytes _).1 g hbuilt
    exact ⟨g, set, hbuilt, hoptions, hset, hgraph⟩
  · obtain ⟨set, hset, hmissed⟩ := exists_of_map_ok hmissed
    cases hfails : ofSet set { messageName := some "m.B" } with
    | ok g =>
        rw [hfails] at hmissed
        cases hmissed
    | error e =>
        obtain ⟨e', hbytes⟩ := (ofSet_of_ofBytes optionBytes _).2 set e hset hfails
        exact ⟨set, e, e', hset, hfails, hbytes⟩

end RootedGraph

end SchemaGraph

import SchemaGraph.Proofs.Schema.Resolve

/-!
# Graphs with custom options

Attaching custom options changes the options of vertices and nothing else.  What it does
to any graph, whatever its names, is said by `Draft.attach_eq`, and what that means for
single vertices by `Draft.attach_element?`.

The graph of a set with options attached therefore holds a vertex for each declaration,
with the options that the encoded entries set for it (`optionsSet`), and the edges of
the set (`holds_attached`).  Entries for no declaration of the set are passed over.
-/

namespace SchemaGraph

/-- The vertex of a declaration with options by identity. -/
def Site.elementWith (entries : List String) (options : ElementKey → List CustomOption)
    (s : Site) : Element :=
  (s.element entries).withOptions (options s.key)

/-- The vertices of a set with options by identity. -/
def FileSet.elementsWith (set : FileSet) (options : ElementKey → List CustomOption) :
    List Element :=
  set.sites.map (Site.elementWith set.mapEntries options)

/-- Options with later ones in their place, if there are any. -/
def overriddenBy (options later : List CustomOption) : List CustomOption :=
  if later = [] then options else later

/-- The options that encoded entries set for an identity: those of the last entry
for it that sets any. -/
def optionsSet (registry : Registry) : List (ElementKey × List UInt8) → ElementKey →
    List CustomOption
  | [], _ => []
  | (entry, bytes) :: rest, key =>
    overriddenBy
      (if entry = key then (CustomOption.decode registry entry.kind.extendee bytes).toOption.getD []
      else [])
      (optionsSet registry rest key)

theorem overriddenBy_nil (options : List CustomOption) : overriddenBy options [] = options :=
  if_pos rfl

theorem nil_overriddenBy (later : List CustomOption) : overriddenBy [] later = later := by
  rw [overriddenBy]
  split
  · next hnil => exact hnil.symm
  · rfl

theorem overriddenBy_assoc (options later last : List CustomOption) :
    overriddenBy (overriddenBy options later) last =
      overriddenBy options (overriddenBy later last) := by
  by_cases hlast : last = []
  · rw [hlast, overriddenBy_nil, overriddenBy_nil]
  · have hover (options : List CustomOption) : overriddenBy options last = last := if_neg hlast
    rw [hover, hover, hover]

theorem Site.key_elementWith (entries : List String) (options : ElementKey → List CustomOption)
    (s : Site) : (s.elementWith entries options).key = s.key :=
  s.key_element entries

theorem FileSet.map_key_elementsWith (set : FileSet) (options : ElementKey → List CustomOption) :
    (set.elementsWith options).map Element.key = set.sites.map Site.key := by
  rw [elementsWith, List.map_map]
  exact List.map_congr_left fun s _ => s.key_elementWith set.mapEntries options

/-! ## Any graph -/

section AnyGraph

variable {registry : Registry} {encoded : List (ElementKey × List UInt8)} {g g' : Store} {n : Nat}
variable {key : ElementKey} {bytes : List UInt8}

/-- The store with other options in its vertices, where there are any for them. -/
def Store.withLater (g : Store) (options : ElementKey → List CustomOption) : Store :=
  { g with elements := g.elements.map fun entry =>
      (entry.1, entry.2.withOptions (overriddenBy entry.2.options (options entry.2.key))) }

/-- Whether an entry sets options of a vertex. -/
def Draft.sets (registry : Registry) (g : Store) (entry : ElementKey × List UInt8) : Bool :=
  (g.find? entry.1).isSome &&
    (CustomOption.decode registry entry.1.kind.extendee entry.2).toOption.any fun options =>
      !options.isEmpty

/-- Options for identities that no vertex has do not matter. -/
theorem Store.withLater_congr {options options' : ElementKey → List CustomOption}
    (h : ∀ key ∈ g.keys, options key = options' key) :
    g.withLater options = g.withLater options' := by
  refine congrArg (fun elements => { g with elements }) (List.map_congr_left ?_)
  rintro ⟨id, e⟩ hmem
  rw [h e.key (Store.mem_keys_iff.mpr ⟨id, e, hmem, rfl⟩)]

theorem Store.element?_withLater (g : Store) (options : ElementKey → List CustomOption)
    (id : VertexId) :
    (g.withLater options).element? id = (g.element? id).map fun e =>
      e.withOptions (overriddenBy e.options (options e.key)) :=
  lookup_map_snd (fun e : Element =>
    e.withOptions (overriddenBy e.options (options e.key))) g.elements id

theorem Store.withLater_nil (g : Store) : (g.withLater fun _ => []) = g := by
  have hsame : (g.elements.map fun entry : VertexId × Element =>
      (entry.1, entry.2.withOptions (overriddenBy entry.2.options []))) = g.elements := by
    refine (List.map_congr_left fun entry _ => ?_).trans (List.map_id _)
    rw [overriddenBy_nil]
    rfl
  exact congrArg (fun elements => { g with elements }) hsame

/-- The options of one vertex are set first, and then those of others. -/
theorem Store.Valid.withLater_update (h : g.Valid) {id : VertexId} (hfind : g.find? key = some id)
    {values : List CustomOption} (hne : values ≠ []) (options : ElementKey → List CustomOption) :
    (g.update id fun e => e.withOptions values).withLater options =
      g.withLater fun k => overriddenBy (if key = k then values else []) (options k) := by
  obtain ⟨hit, hhit, rfl⟩ := h.find?_eq_some_iff.mp hfind
  rw [withLater, withLater, elements_update, List.map_map]
  refine congrArg (fun elements => { g with elements }) (List.map_congr_left ?_)
  rintro ⟨i, e⟩ hmem
  rw [Function.comp_apply]
  by_cases hi : i = id
  · subst hi
    obtain rfl := h.eq_of_id hmem hhit
    have hover : overriddenBy e.options values = values := if_neg hne
    rw [if_pos rfl, if_pos rfl, ← overriddenBy_assoc, hover]
    rfl
  · have hkey : hit.key ≠ e.key := fun heq => hi (h.eq_of_key hmem hhit heq.symm).1
    rw [if_neg hi, if_neg hkey, nil_overriddenBy]

namespace Draft

/-- What attaching does if every entry for a vertex can be decoded. -/
theorem attach_eq (h : g.Valid) (hdecodes : ∀ entry ∈ encoded, entry.1 ∈ g.keys →
      ∃ options, CustomOption.decode registry entry.1.kind.extendee entry.2 = .ok options) :
    attach registry encoded g =
      .ok (g.withLater (optionsSet registry encoded), encoded.countP (sets registry g)) := by
  induction encoded generalizing g with
  | nil => exact congrArg (fun g => Except.ok (g, 0)) g.withLater_nil.symm
  | cons first rest ih =>
      obtain ⟨entry, bytes⟩ := first
      rw [List.forall_mem_cons] at hdecodes
      obtain ⟨hfirst, hrest⟩ := hdecodes
      -- An entry that sets no options of a vertex is one less to look at.
      have hskip (hnone : entry ∈ g.keys →
            (CustomOption.decode registry entry.kind.extendee bytes).toOption.getD [] = [])
          (hsets : sets registry g (entry, bytes) = false) :
          attach registry rest g = .ok (g.withLater (optionsSet registry ((entry, bytes) :: rest)),
            ((entry, bytes) :: rest).countP (sets registry g)) := by
        rw [ih h hrest, List.countP_cons_of_neg (by simp [hsets])]
        refine congrArg (fun g' => Except.ok (g', rest.countP (sets registry g)))
          (Store.withLater_congr fun key hkey => ?_)
        rw [optionsSet]
        split
        · next heq => rw [hnone (heq ▸ hkey), nil_overriddenBy]
        · rw [nil_overriddenBy]
      rw [attach]
      cases hfind : g.find? entry with
      | none =>
          exact hskip (fun hkey => absurd hkey (h.find?_eq_none_iff.mp hfind)) (by simp [sets, hfind])
      | some id =>
          obtain ⟨e, hmem, hkeyed⟩ := h.find?_eq_some_iff.mp hfind
          have hkey : entry ∈ g.keys := Store.mem_keys_iff.mpr ⟨id, e, hmem, hkeyed⟩
          obtain ⟨options, hdecode⟩ := hfirst hkey
          rw [hdecode]
          by_cases hempty : options = []
          · subst hempty
            exact hskip (fun _ => by rw [hdecode]; rfl)
              (by simp [sets, hdecode, Except.toOption])
          · have hupdated : (g.update id fun e => e.withOptions options).Valid :=
              h.update fun e => e.key_withOptions options
            have hkeys : (g.update id fun e => e.withOptions options).keys = g.keys :=
              g.keys_update id fun e => e.key_withOptions options
            have hlater := ih hupdated (by rwa [hkeys])
            have hsets : sets registry (g.update id fun e => e.withOptions options) =
              sets registry g := rfl
            rw [h.withLater_update hfind hempty, hsets] at hlater
            simp only [hlater]
            rw [List.countP_cons_of_pos (by simp [sets, hfind, hdecode, Except.toOption, hempty])]
            refine congrArg (fun g' => Except.ok (g', rest.countP (sets registry g) + 1))
              (Store.withLater_congr fun key _ => ?_)
            rw [optionsSet, hdecode]
            rfl

/-- Options that are attached have been decoded. -/
theorem exists_decode_of_attach (h : attach registry encoded g = .ok (g', n)) (hvalid : g.Valid)
    (hmem : (key, bytes) ∈ encoded) (hkey : key ∈ g.keys) :
    ∃ options, CustomOption.decode registry key.kind.extendee bytes = .ok options := by
  induction encoded generalizing g g' n with
  | nil => exact absurd hmem List.not_mem_nil
  | cons first rest ih =>
      obtain ⟨entry, bytes'⟩ := first
      rw [attach] at h
      split at h
      · next hfind =>
        rcases List.mem_cons.mp hmem with heq | hmem
        · cases heq
          exact absurd hkey (hvalid.find?_eq_none_iff.mp hfind)
        · exact ih h hvalid hmem hkey
      · split at h
        · cases h
        · next hdecode =>
          rcases List.mem_cons.mp hmem with heq | hmem
          · cases heq
            exact ⟨_, hdecode⟩
          · exact ih h hvalid hmem hkey
        · next options _ hdecode =>
          split at h
          · cases h
          next last hattach =>
          rcases List.mem_cons.mp hmem with heq | hmem
          · cases heq
            exact ⟨_, hdecode⟩
          · refine ih hattach (hvalid.update fun e => e.key_withOptions options) hmem ?_
            rwa [Store.keys_update g _ fun e => e.key_withOptions options]

/-- Attaching sets the options of vertices and does nothing else. -/
theorem eq_of_attach (h : attach registry encoded g = .ok (g', n)) (hvalid : g.Valid) :
    g' = g.withLater (optionsSet registry encoded) := by
  rw [attach_eq hvalid fun entry hmem hkey => exists_decode_of_attach h hvalid hmem hkey] at h
  exact (Prod.mk.inj (Except.ok.inj h)).1.symm

/-- Attaching leaves the vertices under their numbers and sets the options of each. -/
theorem attach_element? (h : attach registry encoded g = .ok (g', n)) (hvalid : g.Valid) :
    (∀ key, g'.find? key = g.find? key) ∧ ∀ id, g'.element? id = (g.element? id).map fun e =>
      e.withOptions (overriddenBy e.options (optionsSet registry encoded e.key)) := by
  rw [eq_of_attach h hvalid]
  exact ⟨fun _ => rfl, g.element?_withLater _⟩

end Draft

/-- Entries for other identities set nothing. -/
theorem optionsSet_of_notMem (hkey : key ∉ encoded.map Prod.fst) :
    optionsSet registry encoded key = [] := by
  induction encoded with
  | nil => rfl
  | cons first rest ih =>
      obtain ⟨entry, bytes⟩ := first
      rw [List.map_cons, List.mem_cons, not_or] at hkey
      rw [optionsSet, if_neg (Ne.symm hkey.1), ih hkey.2, overriddenBy_nil]

/-- Of entries with different identities each sets its own options, if it can be decoded. -/
theorem optionsSet_of_mem (hnodup : (encoded.map Prod.fst).Nodup) (hmem : (key, bytes) ∈ encoded) :
    optionsSet registry encoded key =
      (CustomOption.decode registry key.kind.extendee bytes).toOption.getD [] := by
  induction encoded with
  | nil => exact absurd hmem List.not_mem_nil
  | cons first rest ih =>
      obtain ⟨entry, bytes'⟩ := first
      rw [List.map_cons, List.nodup_cons] at hnodup
      rcases List.mem_cons.mp hmem with heq | hmem
      · cases heq
        rw [optionsSet, if_pos rfl, optionsSet_of_notMem hnodup.1, overriddenBy_nil]
      · have hkey : key ∈ rest.map Prod.fst := List.mem_map.mpr ⟨_, hmem, rfl⟩
        have hne : entry ≠ key := fun heq => hnodup.1 (heq ▸ hkey)
        rw [optionsSet, if_neg hne, nil_overriddenBy, ih hnodup.2 hmem]

/-- Entries with different identities set the same options in every order. -/
theorem optionsSet_perm {encoded' : List (ElementKey × List UInt8)} (h : encoded'.Perm encoded)
    (hnodup : (encoded.map Prod.fst).Nodup) :
    optionsSet registry encoded' = optionsSet registry encoded := by
  funext key
  have hkeys : (encoded'.map Prod.fst).Perm (encoded.map Prod.fst) := h.map Prod.fst
  by_cases hkey : key ∈ encoded.map Prod.fst
  · obtain ⟨⟨_, bytes⟩, hmem, rfl⟩ := List.mem_map.mp hkey
    rw [optionsSet_of_mem hnodup hmem,
      optionsSet_of_mem (hkeys.nodup_iff.mpr hnodup) (h.mem_iff.mpr hmem)]
  · rw [optionsSet_of_notMem hkey, optionsSet_of_notMem (mt hkeys.mem_iff.mp hkey)]

end AnyGraph

/-! ## Graphs of sets -/

theorem Store.Valid.withLater {g : Store} (h : g.Valid)
    (options : ElementKey → List CustomOption) : (g.withLater options).Valid := by
  have hids : (g.withLater options).ids = g.ids := List.map_map
  have hkeys : (g.withLater options).keys = g.keys := List.map_map
  have hindex : ((g.withLater options).elements.map fun entry => (entry.2.key, entry.1)) =
      g.elements.map fun entry => (entry.2.key, entry.1) := List.map_map
  exact ⟨hids ▸ h.vertexIds, h.edgeIds, hindex ▸ h.index, hkeys ▸ h.keys, hids ▸ h.ends⟩

/-- With other options a store holds the same vertices but for these, and the same links. -/
theorem Store.Holds.withLater {g : Store} {es : List Element} {ls : List PendingLink}
    (h : g.Holds es ls) (options : ElementKey → List CustomOption) :
    (g.withLater options).Holds
      (es.map fun e => e.withOptions (overriddenBy e.options (options e.key))) ls where
  valid := h.valid.withLater options
  elements := by
    have helements := h.elements.map fun e : Element =>
      e.withOptions (overriddenBy e.options (options e.key))
    rw [List.map_map] at helements
    rw [Store.withLater, List.map_map]
    exact helements
  links := by
    have hkeeps : g.Keeps (g.withLater options) := by
      intro id key hkey
      rw [keyOf?, element?_withLater, Option.map_map]
      exact hkey
    rw [h.valid.namedLinks_of_keeps hkeeps rfl]
    exact h.links

/-- The graph of a set with options attached. -/
theorem holds_attached {set : FileSet} {registry : Registry} {g : Store} {n : Nat}
    {encoded : List (ElementKey × List UInt8)} (h : set.UniqueKeys)
    (hattach : Draft.attach registry encoded (Draft.ofSet set).store = .ok (g, n)) :
    g.Holds (set.elementsWith (optionsSet registry encoded)) set.links := by
  have hholds := holds_ofSet h
  rw [Draft.eq_of_attach hattach hholds.valid]
  have hwith := hholds.withLater (optionsSet registry encoded)
  rw [FileSet.elements, List.map_map] at hwith
  -- The vertices of the set have no options yet.
  have hsame (s : Site) : s.elementWith set.mapEntries (optionsSet registry encoded) =
      (s.element set.mapEntries).withOptions (overriddenBy (s.element set.mapEntries).options
        (optionsSet registry encoded (s.element set.mapEntries).key)) := by
    have hnone : (s.element set.mapEntries).options = [] := by cases s <;> rfl
    rw [hnone, nil_overriddenBy, s.key_element, Site.elementWith]
  rw [FileSet.elementsWith, List.map_congr_left fun s _ => hsame s]
  exact hwith

end SchemaGraph

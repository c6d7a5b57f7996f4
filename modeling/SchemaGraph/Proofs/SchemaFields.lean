import SchemaGraph.Proofs.Flatten.Finished
import SchemaGraph.Proofs.Store.Operations
import SchemaGraph.Proofs.Store.Walks
import SchemaGraph.Proofs.Store.Candidates
import SchemaGraph.Proofs.Wire.Frame

/-!
# The flattened schema is the unfolding of the schema

The main result, `schemaFields_unfold`: the records of a finished graph are, one by
one and each once, those of the chains below its root message that the set unfolds
to (`FileSet.IsChain`, `FileSet.record?`).

* A walk along steps spells a chain (`Store.Spells`), every chain is spelled by a
  walk (`Unfolds.exists_walk`) and by one only (`Unfolds.walk_unique`);
* the walks that the search lists, over all vertices, are those that enter nothing
  twice (`mem_stepWalks_iff`);
* the record of a walk is that of the chain it spells (`Unfolds.element_records`), and says
  what this has to say (`Unfolds.forall₂_records`).

The records come by ascending number of the vertex they are for, which does not
follow from the schema alone, so the order of the chains is left open.
-/

namespace SchemaGraph

/-- Related lists end in related things. -/
theorem exists_getLast?_of_forall₂ {α β : Type} {R : α → β → Prop} {as : List α} {bs : List β}
    {a : α} (h : List.Forall₂ R as bs) (hlast : as.getLast? = some a) :
    ∃ b, bs.getLast? = some b ∧ R a b := by
  induction h with
  | nil => cases hlast
  | @cons a' b' as bs hfirst hrest ih =>
      cases hrest with
      | nil =>
          obtain rfl := Option.some.inj hlast
          exact ⟨b', rfl, hfirst⟩
      | cons _ _ =>
          rw [List.getLast?_cons_cons] at hlast ⊢
          exact ih hlast

namespace Store

/-- Whether an edge is a step along a field path. -/
def isStep (e : Edge) : Bool := e.kind == .field

/-- The walks along steps from a vertex, by the vertices that they end at. -/
def stepWalks (g : Store) (root : VertexId) : List (List Link) :=
  g.ids.flatMap fun id => g.extensions isStep id [root] root

/-- The walk enters the declarations of a chain. -/
def Spells (g : Store) (set : FileSet) (links : List Link) (chain : List Site) : Prop :=
  List.Forall₂ (fun id s => s ∈ set.sites ∧ g.keyOf? id = some s.key)
    (links.map Link.target) chain

variable {g : Store} {root v : VertexId} {links links' : List Link} {l : Link}

/-! ## The walks that are listed -/

/-- Listed are the walks that enter something, nothing twice, and not their start. -/
theorem mem_stepWalks_iff (h : g.Valid) :
    links ∈ g.stepWalks root ↔
      links ≠ [] ∧ g.Walk isStep root links ∧ (root :: links.map Link.target).Nodup := by
  simp only [stepWalks, List.mem_flatMap, mem_extensions_iff, List.nodup_cons, List.mem_map]
  constructor
  · rintro ⟨id, -, hextends⟩
    refine ⟨?_, hextends.walk, ?_, hextends.simple⟩
    · rintro rfl
      cases hextends.last
    · rintro ⟨l, hl, heq⟩
      exact hextends.new l hl (List.mem_singleton.mpr heq)
  · rintro ⟨hne, hwalk, hnew, hsimple⟩
    obtain ⟨l, hl⟩ := Option.ne_none_iff_exists'.mp (mt List.getLast?_eq_none_iff.mp hne)
    have hlink := (hwalk.of_mem (List.mem_of_getLast? hl)).1
    refine ⟨l.target, (h.ends l hlink).2, hwalk, fun m hm hroot => ?_, hsimple, ?_⟩
    · exact hnew ⟨m, hm, List.mem_singleton.mp hroot⟩
    · rw [List.getLast?_map, hl]
      rfl

/-- No walk is listed twice. -/
theorem nodup_stepWalks (h : g.Valid) (root : VertexId) : (g.stepWalks root).Nodup := by
  refine List.nodup_flatMap.mpr ⟨fun id _ => ?_, ?_⟩
  · exact nodup_extensions (List.Nodup.of_map _ h.edgeIds.nodup) _ _
  · refine h.vertexIds.nodup.imp fun {id id'} hne links hmem hmem' => hne ?_
    exact Option.some.inj
      ((mem_extensions_iff.mp hmem).last.symm.trans (mem_extensions_iff.mp hmem').last)

/-! ## Walks and chains -/

namespace Unfolds

variable {set : FileSet} {flat : Bool} {options : ElementKey → List CustomOption}
variable {s : Site} {m : MessageSite} {chain chain' : List Site}

/-- A vertex stands for one declaration, and a declaration for one vertex. -/
theorem biUnique (hu : set.UniqueKeys) (h : g.Unfolds set flat options) :
    Relator.BiUnique fun (id : VertexId) (s : Site) =>
      s ∈ set.sites ∧ g.keyOf? id = some s.key := by
  constructor
  · rintro id s id' ⟨-, hid⟩ ⟨-, hid'⟩
    exact h.follows.valid.eq_of_keyOf? hid hid'
  · rintro id s s' ⟨hs, hid⟩ ⟨hs', hid'⟩
    exact hu.eq_of_key hs hs' (Option.some.inj (hid.symm.trans hid'))

/-- A step leads from a declaration to one that follows it. -/
theorem exists_ends (h : g.Unfolds set flat options) (hl : l ∈ g.links)
    (hstep : isStep l.edge = true) :
    ∃ s ∈ set.sites, ∃ t ∈ set.sites, g.keyOf? l.source = some s.key ∧
      g.keyOf? l.target = some t.key ∧ set.Continues flat s t ∧
      l.edge.type = (set.shape flat t).1 := by
  obtain ⟨n, hn⟩ := h.follows.valid.exists_nameOf? hl
  obtain ⟨hsource, htarget, hedge⟩ := nameOf?_eq_some_iff.mp hn
  rw [isStep, beq_iff_eq, hedge] at hstep
  obtain ⟨s, hs, t, ht, hskey, htkey, hcontinues, htype⟩ :=
    h.steps n (mem_namedLinks_iff.mpr ⟨l, hl, hn⟩) hstep
  rw [hskey] at hsource
  rw [htkey] at htarget
  exact ⟨s, hs, t, ht, hsource, htarget, hcontinues, hedge ▸ htype⟩

/-- A step from the vertex of a declaration leads to that of one that follows it. -/
theorem step (hu : set.UniqueKeys) (h : g.Unfolds set flat options) (hs : s ∈ set.sites)
    (hv : g.keyOf? v = some s.key) (hl : l ∈ g.outgoing v) (hstep : isStep l.edge = true) :
    ∃ t ∈ set.sites, g.keyOf? l.target = some t.key ∧ set.Continues flat s t ∧
      l.edge.type = (set.shape flat t).1 := by
  obtain ⟨hl, hsource⟩ := List.mem_filter.mp hl
  obtain ⟨s', hs', t, ht, hskey, htkey, hcontinues, htype⟩ := h.exists_ends hl hstep
  rw [beq_iff_eq.mp hsource, hv] at hskey
  obtain rfl := hu.eq_of_key hs hs' (Option.some.inj hskey)
  exact ⟨t, ht, htkey, hcontinues, htype⟩

/-- No walk enters a message or an enum. -/
theorem kind_of_target (h : g.Unfolds set flat options) (hwalk : g.Walk isStep v links)
    (hl : l ∈ links) {key : ElementKey} (hkey : g.keyOf? l.target = some key) :
    key.kind = .field ∨ key.kind = .oneOf := by
  obtain ⟨hmem, hstep⟩ := hwalk.of_mem hl
  obtain ⟨_, _, t, _, _, htkey, hcontinues, _⟩ := h.exists_ends hmem hstep
  obtain rfl := Option.some.inj (hkey.symm.trans htkey)
  exact hcontinues.kind

/-- A walk spells a chain. -/
theorem exists_chain (hu : set.UniqueKeys) (h : g.Unfolds set flat options)
    (hwalk : g.Walk isStep v links) (hs : s ∈ set.sites) (hv : g.keyOf? v = some s.key) :
    ∃ chain, g.Spells set links chain ∧ (s :: chain).IsChain (set.Continues flat) := by
  induction hwalk generalizing s with
  | nil v => exact ⟨[], List.Forall₂.nil, List.IsChain.singleton s⟩
  | cons hl hstep _ ih =>
      obtain ⟨t, ht, htkey, hcontinues, -⟩ := h.step hu hs hv hl hstep
      obtain ⟨chain, hspells, hchain⟩ := ih ht htkey
      exact ⟨t :: chain, List.Forall₂.cons ⟨ht, htkey⟩ hspells,
        List.isChain_cons_cons.mpr ⟨hcontinues, hchain⟩⟩

/-- A chain is spelled by a walk. -/
theorem exists_walk (hu : set.UniqueKeys) (h : g.Unfolds set flat options)
    (hchain : (s :: chain).IsChain (set.Continues flat)) (hs : s ∈ set.sites)
    (hv : g.keyOf? v = some s.key) :
    ∃ links, g.Walk isStep v links ∧ g.Spells set links chain := by
  induction chain generalizing s v with
  | nil => exact ⟨[], Walk.nil v, List.Forall₂.nil⟩
  | cons t chain ih =>
      obtain ⟨hcontinues, hrest⟩ := List.isChain_cons_cons.mp hchain
      have hthere : s.key ∈ g.keys := by
        obtain ⟨e, hmem, hkey⟩ := h.follows.valid.keyOf?_eq_some_iff.mp hv
        exact mem_keys_iff.mpr ⟨v, e, hmem, hkey⟩
      -- The step is given by the names of its ends, and its source has one vertex.
      obtain ⟨n, hn, hkind, hsource, htarget⟩ := h.exists_step s hs hthere t hcontinues
      obtain ⟨l, hl, hname⟩ := mem_namedLinks_iff.mp hn
      obtain ⟨hskey, htkey, hedge⟩ := nameOf?_eq_some_iff.mp hname
      rw [hsource] at hskey
      rw [htarget] at htkey
      have ht : t ∈ set.sites := (hcontinues.link hu hs).1
      obtain ⟨links, hwalk, hspells⟩ := ih hrest ht htkey
      have hout : l ∈ g.outgoing v := List.mem_filter.mpr
        ⟨hl, beq_iff_eq.mpr (h.follows.valid.eq_of_keyOf? hskey hv)⟩
      have hstep : isStep l.edge = true := by rw [isStep, hedge, hkind]; rfl
      exact ⟨l :: links, Walk.cons hout hstep hwalk, List.Forall₂.cons ⟨ht, htkey⟩ hspells⟩

/-- A walk is known from the vertices it enters. -/
theorem walk_eq_of_targets (h : g.Unfolds set flat options) (hwalk : g.Walk isStep v links)
    (hwalk' : g.Walk isStep v links') (htargets : links.map Link.target = links'.map Link.target) :
    links = links' := by
  -- Between two vertices there is one link at most.
  induction hwalk generalizing links' with
  | nil v => exact (List.map_eq_nil_iff.mp htargets.symm).symm
  | @cons v l rest hl _ _ ih =>
      cases hwalk' with
      | nil => cases htargets
      | @cons _ l' rest' hl' _ hrest' =>
          obtain ⟨htarget, hrest⟩ := List.cons.inj htargets
          obtain ⟨hl, hsource⟩ := List.mem_filter.mp hl
          obtain ⟨hl', hsource'⟩ := List.mem_filter.mp hl'
          obtain rfl := h.follows.eq_of_ends hl hl'
            ((beq_iff_eq.mp hsource).trans (beq_iff_eq.mp hsource').symm) htarget
          rw [ih hrest' hrest]

/-- Different walks spell different chains. -/
theorem walk_unique (hu : set.UniqueKeys) (h : g.Unfolds set flat options)
    (hwalk : g.Walk isStep v links) (hwalk' : g.Walk isStep v links')
    (hspells : g.Spells set links chain) (hspells' : g.Spells set links' chain) : links = links' :=
  h.walk_eq_of_targets hwalk hwalk' ((h.biUnique hu).left.forall₂ hspells hspells')

/-- The walks that are listed spell the chains below the message they start from. -/
theorem isChain_iff (hu : set.UniqueKeys) (h : g.Unfolds set flat options)
    (hm : Site.message m ∈ set.sites) (hroot : g.keyOf? root = some m.key) :
    set.IsChain flat m chain ↔ ∃ links ∈ g.stepWalks root, g.Spells set links chain := by
  -- Vertices and declarations correspond one to one, so neither side repeats anything
  -- unless the other does.
  have hnodup {links : List Link} (hspells : g.Spells set links chain) :
      (links.map Link.target).Nodup ↔ chain.Nodup := List.rel_nodup (h.biUnique hu) hspells
  constructor
  · rintro ⟨hne, hfollows, hchain⟩
    obtain ⟨links, hwalk, hspells⟩ := h.exists_walk hu hfollows hm hroot
    refine ⟨links, (mem_stepWalks_iff h.follows.valid).mpr ⟨?_, hwalk, ?_⟩, hspells⟩
    · rintro rfl
      exact hne (List.forall₂_nil_left_iff.mp hspells)
    · refine List.nodup_cons.mpr ⟨fun hmem => ?_, (hnodup hspells).mpr hchain⟩
      obtain ⟨l, hl, rfl⟩ := List.mem_map.mp hmem
      rcases h.kind_of_target hwalk hl hroot with hkind | hkind <;> cases hkind
  · rintro ⟨links, hlinks, hspells⟩
    obtain ⟨hne, hwalk, hsimple⟩ := (mem_stepWalks_iff h.follows.valid).mp hlinks
    obtain ⟨chain', hspells', hfollows⟩ := h.exists_chain hu hwalk hm hroot
    obtain rfl := (h.biUnique hu).right.forall₂ hspells hspells'
    refine ⟨?_, hfollows, (hnodup hspells).mp (List.nodup_cons.mp hsimple).2⟩
    rintro rfl
    exact hne (List.map_eq_nil_iff.mp (List.forall₂_nil_right_iff.mp hspells))

/-! ## Records -/

/-- The links of a walk add to a field path what the chain it spells adds. -/
theorem pathSteps_eq (hu : set.UniqueKeys) {visit : Visit}
    (h : visit.graph.store.Unfolds set flat options)
    (hwalk : visit.graph.store.Walk isStep v links) (hs : s ∈ set.sites)
    (hv : visit.graph.store.keyOf? v = some s.key)
    (hspells : visit.graph.store.Spells set links chain) :
    (links.map Link.id).flatMap visit.pathStep =
      chain.flatMap fun s => [(set.shape flat s).1, s.name] := by
  induction hwalk generalizing s chain with
  | nil v => rw [List.forall₂_nil_left_iff.mp hspells]; rfl
  | @cons v l rest hl hstep hrest ih =>
      obtain ⟨t, chain, ⟨ht, htkey⟩, hspelled, rfl⟩ := List.forall₂_cons_left_iff.mp hspells
      obtain ⟨t', ht', htkey', -, htype⟩ := h.step hu hs hv hl hstep
      obtain rfl := (h.biUnique hu).right ⟨ht, htkey⟩ ⟨ht', htkey'⟩
      obtain ⟨e, he, hkey⟩ := h.follows.valid.keyOf?_eq_some_iff.mp htkey
      obtain ⟨t', ht', hshown⟩ := h.vertices _ e he
      obtain rfl := hu.eq_of_key ht ht' (hkey.symm.trans hshown.key)
      have hfound : visit.graph.store.link? l.id = some l :=
        h.follows.valid.link?_eq_some_iff.mpr ⟨List.mem_of_mem_filter hl, rfl⟩
      have hpath : visit.pathStep l.id = [(set.shape flat t).1, t.name] := by
        rw [Visit.pathStep, hfound]
        simp only [h.follows.valid.element?_eq_some_iff.mpr he, htype, hshown.name]
      rw [List.map_cons, List.flatMap_cons, List.flatMap_cons, hpath, ih ht htkey hspelled]

end Unfolds

end Store

/-! ## Records of finished graphs -/

/-- For a field and for a group the records of its field paths are emitted. -/
theorem Site.IsShownAs.element_eq_records {set : FileSet} {flat : Bool}
    {options : ElementKey → List CustomOption} {s : Site} {e : Element} {visit : Visit}
    {id : VertexId} (h : s.IsShownAs set flat options e)
    (hkind : e.kind = .field ∨ e.kind = .oneOf) :
    SchemaField.visitor.element visit id e =
      SchemaField.records visit id e s.nativeType s.isNullable := by
  rw [Visitor.element]
  rcases hkind with hfield | hgroup
  · rw [hfield]
    show SchemaField.records _ id e (e.nativeType.getD "") (SchemaField.isNullable e) = _
    rw [h.nativeType hfield, h.isNullable]
    rfl
  · obtain ⟨G, rfl⟩ := Site.exists_group ((congrArg ElementKey.kind h.key).symm.trans hgroup)
    rw [hgroup]
    rfl

/-- Nothing is emitted for a message or an enum. -/
theorem SchemaField.element_eq_nil {visit : Visit} {id : VertexId} {e : Element}
    (hkind : ¬ (e.kind = .field ∨ e.kind = .oneOf)) :
    SchemaField.visitor.element visit id e = [] := by
  rw [Visitor.element]
  cases hsame : e.kind with
  | message => rfl
  | enum => rfl
  | field => exact absurd (Or.inl hsame) hkind
  | oneOf => exact absurd (Or.inr hsame) hkind

/-- A finished graph with a message of a set as its root unfolds the set. -/
structure RootedGraph.Unfolds (r : RootedGraph) (set : FileSet) (flat : Bool)
    (options : ElementKey → List CustomOption) (m : MessageSite) : Prop where
  uniqueKeys : set.UniqueKeys
  store : r.store.Unfolds set flat options
  message : Site.message m ∈ set.sites
  root : (r.rootId, r.root) ∈ r.store.elements
  shown : (Site.message m).IsShownAs set flat options r.root

namespace RootedGraph

open Store

variable {r : RootedGraph} {set : FileSet} {flat : Bool}
variable {options : ElementKey → List CustomOption} {m : MessageSite} {s : Site}
variable {id : VertexId} {e : Element} {links : List Link} {chain : List Site}

/-- What is emitted for a vertex other than the root are the records of the walks to
it. -/
theorem records_eq (h : r.store.Valid) (hroot : (r.rootId, r.root) ∈ r.store.elements)
    (hmem : (id, e) ∈ r.store.elements) (hne : r.rootId ≠ id) (nativeType : String)
    (nullable : Bool) :
    SchemaField.records ⟨r, none⟩ id e nativeType nullable =
      (r.store.extensions isStep id [r.rootId] r.rootId).map fun links =>
        { fieldPath := Visit.fieldPath ⟨r, none⟩ (Path.ofLinks r.rootId links)
          nativeType, dataType := e.dataType, nullable, description := e.comment
          options := e.options } := by
  have hpaths : r.store.fieldPaths r.rootId id =
      (r.store.extensions isStep id [r.rootId] r.rootId).map (Path.ofLinks r.rootId) := by
    rw [Store.fieldPaths, pathsBy, h.element?_eq_some_iff.mpr hroot,
      h.element?_eq_some_iff.mpr hmem]
    exact if_neg hne
  rw [SchemaField.records, Visit.fieldPaths, hpaths, List.map_map, List.map_map]
  rfl

namespace Unfolds

theorem keyOf?_root (h : r.Unfolds set flat options m) :
    r.store.keyOf? r.rootId = some m.key := by
  rw [h.store.follows.valid.keyOf?_of_mem h.root, h.shown.key]
  rfl

/-- The field path of a walk is the path of the chain it spells. -/
theorem fieldPath_eq (h : r.Unfolds set flat options m) (dataset : Option String)
    (hwalk : r.store.Walk isStep r.rootId links) (hspells : r.store.Spells set links chain) :
    Visit.fieldPath ⟨r, dataset⟩ (Path.ofLinks r.rootId links) = set.chainPath flat m chain := by
  rw [Visit.fieldPath, Path.ofLinks, h.store.pathSteps_eq h.uniqueKeys hwalk h.message
    h.keyOf?_root hspells, h.shown.pathType]
  rfl

/-- The record of a walk is that of the chain it spells. -/
theorem record?_of_extends (h : r.Unfolds set flat options m) (hmem : (id, e) ∈ r.store.elements)
    (hs : s ∈ set.sites) (hshown : s.IsShownAs set flat options e)
    (hextends : r.store.Extends isStep id [r.rootId] r.rootId links)
    (hspells : r.store.Spells set links chain) :
    set.record? flat options m chain = some
      { fieldPath := Visit.fieldPath ⟨r, none⟩ (Path.ofLinks r.rootId links)
        nativeType := s.nativeType
        dataType := e.dataType
        nullable := s.isNullable
        description := e.comment
        options := e.options } := by
  have hpath := h.fieldPath_eq none hextends.walk hspells
  obtain ⟨t, hlast, ht, htkey⟩ := exists_getLast?_of_forall₂ hspells hextends.last
  have hid : r.store.keyOf? id = some s.key := by
    rw [h.store.follows.valid.keyOf?_of_mem hmem, hshown.key]
  obtain rfl := (h.store.biUnique h.uniqueKeys).right ⟨ht, htkey⟩ ⟨hs, hid⟩
  rw [FileSet.record?, hlast, hpath, hshown.dataType, hshown.comment, hshown.options]
  rfl

/-- No walk leads to a message or an enum. -/
theorem extensions_eq_nil (h : r.Unfolds set flat options m) (hmem : (id, e) ∈ r.store.elements)
    (hkind : ¬ (e.kind = .field ∨ e.kind = .oneOf)) :
    r.store.extensions isStep id [r.rootId] r.rootId = [] := by
  refine List.eq_nil_iff_forall_not_mem.mpr fun links hlinks => hkind ?_
  have hextends := mem_extensions_iff.mp hlinks
  obtain ⟨l, hl, rfl⟩ := List.mem_map.mp (List.mem_of_getLast? hextends.last)
  exact h.store.kind_of_target hextends.walk hl (h.store.follows.valid.keyOf?_of_mem hmem)

/-- What is emitted for a vertex are the records of the chains that the walks to it
spell. -/
theorem element_records (h : r.Unfolds set flat options m) (hmem : (id, e) ∈ r.store.elements)
    {spelled : List Link → List Site}
    (hspelled : ∀ links ∈ r.store.stepWalks r.rootId, r.store.Spells set links (spelled links)) :
    (SchemaField.visitor.element ⟨r, none⟩ id e).map some =
      (r.store.extensions isStep id [r.rootId] r.rootId).map fun links =>
        set.record? flat options m (spelled links) := by
  have hvalid := h.store.follows.valid
  obtain ⟨s, hs, hshown⟩ := h.store.vertices id e hmem
  by_cases hkind : e.kind = .field ∨ e.kind = .oneOf
  · -- From the root to itself the paths would be its loops; but the root is a message.
    have hne : r.rootId ≠ id := by
      rintro rfl
      have hroot := h.keyOf?_root
      rw [hvalid.keyOf?_of_mem hmem] at hroot
      have hmessage : e.kind = .message := congrArg ElementKey.kind (Option.some.inj hroot)
      rw [hmessage] at hkind
      rcases hkind with hkind | hkind <;> cases hkind
    rw [hshown.element_eq_records hkind, records_eq hvalid h.root hmem hne, List.map_map]
    refine List.map_congr_left fun links hlinks => ?_
    exact (h.record?_of_extends hmem hs hshown (mem_extensions_iff.mp hlinks) (hspelled links
      (List.mem_flatMap.mpr ⟨id, mem_ids_iff.mpr ⟨e, hmem⟩, hlinks⟩))).symm
  · rw [SchemaField.element_eq_nil hkind, h.extensions_eq_nil hmem hkind]
    rfl

/-- The records of a graph are those of the chains below its root. -/
theorem records (h : r.Unfolds set flat options m) :
    ∃ chains : List (List Site), chains.Nodup ∧
      (∀ chain, chain ∈ chains ↔ set.IsChain flat m chain) ∧
      (SchemaField.all r).map some = chains.map (set.record? flat options m) := by
  have hvalid := h.store.follows.valid
  have hchain (links : List Link) (hlinks : links ∈ r.store.stepWalks r.rootId) :
      ∃ chain, r.store.Spells set links chain := by
    obtain ⟨-, hwalk, -⟩ := (mem_stepWalks_iff hvalid).mp hlinks
    obtain ⟨chain, hspells, -⟩ := h.store.exists_chain h.uniqueKeys hwalk h.message h.keyOf?_root
    exact ⟨chain, hspells⟩
  -- The chains are listed in the order of the walks that spell them.
  choose! spelled hspelled using hchain
  refine ⟨(r.store.stepWalks r.rootId).map spelled, ?_, fun chain => ?_, ?_⟩
  · refine List.Nodup.map_on (fun links hlinks links' hlinks' heq => ?_)
      (nodup_stepWalks hvalid r.rootId)
    have hspells := hspelled links hlinks
    rw [heq] at hspells
    exact h.store.walk_unique h.uniqueKeys ((mem_stepWalks_iff hvalid).mp hlinks).2.1
      ((mem_stepWalks_iff hvalid).mp hlinks').2.1 hspells (hspelled links' hlinks')
  · rw [h.store.isChain_iff h.uniqueKeys h.message h.keyOf?_root, List.mem_map]
    constructor
    · rintro ⟨links, hlinks, rfl⟩
      exact ⟨links, hlinks, hspelled links hlinks⟩
    · rintro ⟨links, hlinks, hspells⟩
      exact ⟨links, hlinks,
        (h.store.biUnique h.uniqueKeys).right.forall₂ (hspelled links hlinks) hspells⟩
  · have hall : SchemaField.all r = r.store.elements.flatMap fun entry =>
        SchemaField.visitor.element ⟨r, none⟩ entry.1 entry.2 := by
      rw [SchemaField.all, Visit.run]
      simp only [List.flatMap_cons, List.flatMap_nil, List.append_nil]
      rfl
    rw [hall, stepWalks, ids, List.map_flatMap, List.map_map, List.map_flatMap, List.flatMap_map]
    refine List.flatMap_congr fun entry hentry => ?_
    exact h.element_records hentry hspelled

/-- Each record says what its chain has to say. -/
theorem forall₂_records (h : r.Unfolds set flat options m) {chains : List (List Site)}
    (hchains : ∀ chain ∈ chains, set.IsChain flat m chain)
    (hrecords : (SchemaField.all r).map some = chains.map (set.record? flat options m)) :
    List.Forall₂ (set.Records flat options m) chains (SchemaField.all r) := by
  have heach : List.Forall₂ (fun chain x => set.record? flat options m chain = some x) chains
      (SchemaField.all r) := by
    -- The records are those of the chains, place by place.
    have hsame : List.Forall₂ Eq (chains.map (set.record? flat options m))
        ((SchemaField.all r).map some) := hrecords ▸ List.forall₂_refl _
    exact List.forall₂_map_right_iff.mp (List.forall₂_map_left_iff.mp hsame)
  refine List.Forall₂.imp ?_ ((List.forall₂_and_left chains _).mpr ⟨hchains, heach⟩)
  rintro chain x ⟨hchain, hrecord⟩
  exact FileSet.records_of_record? h.uniqueKeys h.message hchain hrecord

end Unfolds

/-- A selected root is a message, the one that is named if any is. -/
theorem kind_of_selectRoot {options : GraphOptions} {g : Store} (h : g.Valid)
    (hselect : set.selectRoot options g = .ok id) (hmem : (id, e) ∈ g.elements) :
    e.kind = .message ∧ ∀ name, options.messageName = some name → e.fullName = name := by
  rw [FileSet.selectRoot] at hselect
  split at hselect
  · next name hname =>
    rw [Store.findMessage] at hselect
    split at hselect
    · next found hfind =>
      obtain rfl := Except.ok.inj hselect
      obtain ⟨e', hmem', hkey⟩ := h.find?_eq_some_iff.mp hfind
      obtain rfl := h.eq_of_id hmem hmem'
      refine ⟨congrArg ElementKey.kind hkey, fun name' hname' => ?_⟩
      obtain rfl := Option.some.inj (hname.symm.trans hname')
      exact congrArg ElementKey.fullName hkey
    · cases hselect
  · next hname =>
    refine ⟨?_, fun name hname' => by rw [hname] at hname'; cases hname'⟩
    split at hselect
    · cases hselect
    · exact (h.root_of_detectRoot hselect hmem).1

/-- A graph that is built from a set, with options attached, unfolds the set from its
root message, which is the one that is named if any is. -/
theorem exists_unfolds {options : GraphOptions} {g : Store} {n : Nat}
    {encoded : List (ElementKey × List UInt8)} (hids : set.Identifiers) (h : set.UniqueNames)
    (hwrappers : set.PlainWrappers)
    (hattach : Draft.attach (Registry.ofSet set) encoded (Draft.ofSet set).store = .ok (g, n))
    (hbuild : build set options g = .ok r) :
    ∃ m, r.Unfolds set options.flattenWrappers (optionsSet (Registry.ofSet set) encoded) m ∧
      m.fullName = r.fullName ∧ ∀ name, options.messageName = some name → m.fullName = name := by
  have hdrawn := drawn_attached h hwrappers hattach
  obtain ⟨hstore, hselect, hroot⟩ := of_build hbuild
  have hunfolds : r.store.Unfolds set options.flattenWrappers
      (optionsSet (Registry.ofSet set) encoded) := by
    rw [hstore]
    cases options.flattenWrappers with
    | true => exact hdrawn.unfolds_flatten hids
    | false => exact hdrawn.unfolds hids
  have hvalid := hunfolds.follows.valid
  have hmem := hvalid.element?_eq_some_iff.mp hroot
  obtain ⟨hkind, hname⟩ := kind_of_selectRoot hvalid hselect hmem
  obtain ⟨s, hs, hshown⟩ := hunfolds.vertices _ _ hmem
  obtain ⟨m, rfl⟩ := Site.exists_message
    ((congrArg ElementKey.kind hshown.key).symm.trans hkind)
  have hfullName : m.fullName = r.fullName := (congrArg ElementKey.fullName hshown.key).symm
  exact ⟨m, ⟨h.uniqueKeys, hunfolds, hs, hmem, hshown⟩, hfullName,
    fun name hnamed => hfullName.trans (hname name hnamed)⟩

end RootedGraph

/-- The records of a finished graph are, each once, those of the chains below its
root message, and each says what `FileSet.Records` asks of its chain.  Without encoded options nothing is attached and the graph is that of
`RootedGraph.ofSet`; with the options that are read from bytes it is that of
`RootedGraph.ofBytes`. -/
theorem schemaFields_unfold {set : FileSet} {options : GraphOptions} {g : Store} {n : Nat}
    {encoded : List (ElementKey × List UInt8)} {r : RootedGraph} (hids : set.Identifiers)
    (h : set.UniqueNames) (hwrappers : set.PlainWrappers)
    (hattach : Draft.attach (Registry.ofSet set) encoded (Draft.ofSet set).store = .ok (g, n))
    (hbuild : RootedGraph.build set options g = .ok r) :
    ∃ m ∈ set.messageSites, m.fullName = r.fullName ∧
      (∀ name, options.messageName = some name → m.fullName = name) ∧
      ∃ chains : List (List Site), chains.Nodup ∧
        (∀ chain, chain ∈ chains ↔ set.IsChain options.flattenWrappers m chain) ∧
        (SchemaField.all r).map some = chains.map
          (set.record? options.flattenWrappers (optionsSet (Registry.ofSet set) encoded) m) ∧
        List.Forall₂
          (set.Records options.flattenWrappers (optionsSet (Registry.ofSet set) encoded) m)
          chains (SchemaField.all r) := by
  obtain ⟨m, hunfolds, hfullName, hnamed⟩ :=
    RootedGraph.exists_unfolds hids h hwrappers hattach hbuild
  obtain ⟨chains, hnodup, hchains, hrecords⟩ := hunfolds.records
  exact ⟨m, FileSet.message_mem_sites.mp hunfolds.message, hfullName, hnamed, chains, hnodup,
    hchains, hrecords, hunfolds.forall₂_records (fun chain hmem => (hchains chain).mp hmem) hrecords⟩

/-- A book that refers to a shelf and has an author in a group, held by a wrapper message;
a text may be set on fields, and a number on groups. -/
def shelfSet : FileSet where
  files :=
    [{ name := wrappersFile
       package := "google.protobuf"
       messages :=
         [{ name := "StringValue"
            fields := [{ name := "value", number := 1, type := .string }]
            nested := []
            enums := []
            extensions := []
            oneofs := []
            isMapEntry := false }] },
     { name := "shelf.proto"
       package := "s"
       messages :=
         [{ name := "Book"
            fields :=
              [{ name := "on", number := 1, label := .required, type := .message
                 typeName := some ".s.Shelf" },
               { name := "author", number := 2, type := .message
                 typeName := some ".google.protobuf.StringValue", oneofIndex := some 0 }]
            nested := []
            enums := []
            extensions := []
            oneofs := ["by"]
            isMapEntry := false },
          { name := "Shelf"
            fields := [{ name := "rows", number := 1, label := .repeated, type := .int64 }]
            nested := []
            enums := []
            extensions := []
            oneofs := []
            isMapEntry := false }]
       extensions :=
         [{ name := "hint", number := 50001, type := .string
            extendee := ".google.protobuf.FieldOptions" },
          { name := "rank", number := 50001, type := .int32
            extendee := ".google.protobuf.OneofOptions" }]
       locations :=
         [{ path := [4, 0, 2, 0], leading := some " Where it stands.\n", trailing := none },
          { path := [4, 0, 8, 0], leading := none, trailing := some "Who wrote it." },
          { path := [4, 1, 2, 0], leading := some "From the floor.", trailing := none }] }]

/-- A text on the rows of the shelf, and a number on the group. -/
def shelfOptions : List (ElementKey × List UInt8) :=
  [(⟨.field, "s.Shelf.rows"⟩, [138, 181, 24, 2, 111, 107]),
   (⟨.oneOf, "s.Book.by"⟩, [136, 181, 24, 7])]

/-- The records of a book, in the order of the vertices: one of them for a row, through the
reference to the shelf, and one for the author, through the group. -/
def shelfRecords : List SchemaField :=
  [⟨"[version=2.0].[type=s_Book].[type=s_Shelf].on", "s.Shelf", .record, false,
      "Where it stands.", []⟩,
    ⟨"[version=2.0].[type=s_Book].[type=union].by.[type=string].author",
      "google.protobuf.StringValue", .string, true, "", []⟩,
    ⟨"[version=2.0].[type=s_Book].[type=union].by", "oneof", .union, true,
      "Who wrote it.", [⟨"s.rank", 50001, .int 7⟩]⟩,
    ⟨"[version=2.0].[type=s_Book].[type=s_Shelf].on.[type=array].[type=long].rows", "int64",
      .array, true, "From the floor.", [⟨"s.hint", 50001, .string "ok"⟩]⟩]

/-- The author of a book is shown as the string that is wrapped, and the rows of its shelf
and the group have their options. -/
theorem schemaFields_unfold_shelfSet :
    shelfSet.Identifiers ∧ shelfSet.UniqueNames ∧ shelfSet.PlainWrappers ∧
      ∃ g n r, Draft.attach (Registry.ofSet shelfSet) shelfOptions (Draft.ofSet shelfSet).store =
          .ok (g, n) ∧
        RootedGraph.build shelfSet { messageName := some "s.Book" } g = .ok r ∧
        (∃ m ∈ shelfSet.messageSites, m.fullName = "s.Book" ∧
          ∃ chains : List (List Site), chains.Nodup ∧
            (∀ chain, chain ∈ chains ↔ shelfSet.IsChain true m chain) ∧
            (SchemaField.all r).map some = chains.map
              (shelfSet.record? true (optionsSet (Registry.ofSet shelfSet) shelfOptions) m) ∧
            List.Forall₂
              (shelfSet.Records true (optionsSet (Registry.ofSet shelfSet) shelfOptions) m)
              chains (SchemaField.all r)) ∧
        SchemaField.all r = shelfRecords := by
  have hids : shelfSet.Identifiers := by decide +kernel
  have hnames : shelfSet.UniqueNames := by decide +kernel
  have hwrappers : shelfSet.PlainWrappers := by decide +kernel
  have hrun : ((Draft.attach (Registry.ofSet shelfSet) shelfOptions
        (Draft.ofSet shelfSet).store).map fun attached =>
      (RootedGraph.build shelfSet { messageName := some "s.Book" } attached.1).map
        SchemaField.all) = .ok (.ok shelfRecords) := by decide +kernel
  obtain ⟨⟨g, n⟩, hattach, hrun⟩ := exists_of_map_ok hrun
  obtain ⟨r, hbuild, hall⟩ := exists_of_map_ok hrun
  obtain ⟨m, hm, -, hnamed, hchains⟩ := schemaFields_unfold hids hnames hwrappers hattach hbuild
  exact ⟨hids, hnames, hwrappers, g, n, r, hattach, hbuild, ⟨m, hm, hnamed _ rfl, hchains⟩, hall⟩

end SchemaGraph

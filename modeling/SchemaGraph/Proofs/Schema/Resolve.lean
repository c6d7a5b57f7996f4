import SchemaGraph.Graph.Reference
import SchemaGraph.Proofs.Schema.Covers

/-!
# Resolving references

Which edges a field gets to the declarations it names, said on the schema alone
(`Site.messageReferences`, `Site.enumReferences`), and the proof that resolving
the draft of a set adds exactly these edges (`holds_ofSet`): the graph of a set
holds one vertex for each declaration, the edges of ownership and the edges of
reference, and nothing else.

An enum is looked for whenever the path type of a field ends in the enum tag,
which is what the graph does; that this means an enum-typed field is shown where
it is used.
-/

namespace SchemaGraph

namespace FileSet

/-- The message of a set with a full name. -/
def message? (set : FileSet) (name : String) : Option MessageSite :=
  set.messageSites.find? fun m => m.fullName == name

/-- The enum of a set with a full name. -/
def enum? (set : FileSet) (name : String) : Option EnumSite :=
  set.enumSites.find? fun e => e.fullName == name

end FileSet

/-- The edges of a field whose type is a message: into everything the message
directly owns, and to the message itself. -/
def FieldSite.messageLinks (entries : List String) (f : FieldSite) (m : MessageSite) :
    List PendingLink :=
  m.owned.map (fun s => ⟨f.key, s.key, Edge.into (s.element entries)⟩) ++
    [⟨f.key, m.key, ⟨.typeRef, (m.element entries).pathType, true⟩⟩]

/-- The edge of a field to an enum. -/
def FieldSite.enumLink (entries : List String) (f : FieldSite) (e : EnumSite) : PendingLink :=
  ⟨f.key, e.key, ⟨.typeRef, (e.element entries).pathType, false⟩⟩

namespace Site

/-- The edges of a message-typed field. -/
def messageReferences (set : FileSet) : Site → List PendingLink
  | .field f =>
    if f.decl.type.isMessage then
      ((set.message? f.decl.nativeType).map (f.messageLinks set.mapEntries)).getD []
    else []
  | _ => []

/-- The edge of a field whose path type ends in the enum tag. -/
def enumReferences (set : FileSet) : Site → List PendingLink
  | .field f =>
    if Text.endsWith (f.element set.mapEntries).pathType enumTag then
      ((set.enum? f.decl.nativeType).map (f.enumLink set.mapEntries)).toList
    else []
  | _ => []

/-- The edges from a declaration to what it names. -/
def references (set : FileSet) (s : Site) : List PendingLink :=
  s.messageReferences set ++ s.enumReferences set

end Site

/-- Where names differ, looking for a name finds the one that has it. -/
theorem find?_eq_some_iff_of_nodup {α : Type} {as : List α} {nameOf : α → String}
    (hnames : (as.map nameOf).Nodup) {name : String} {a : α} :
    as.find? (fun a => nameOf a == name) = some a ↔ a ∈ as ∧ nameOf a = name := by
  have hfound {a' : α} (h : as.find? (fun a => nameOf a == name) = some a') :
      a' ∈ as ∧ nameOf a' = name :=
    ⟨List.mem_of_find?_eq_some h, by simpa using List.find?_some h⟩
  refine ⟨hfound, ?_⟩
  rintro ⟨ha, hname⟩
  cases hcase : as.find? fun a => nameOf a == name with
  | none => exact absurd hname (by simpa using List.find?_eq_none.mp hcase a ha)
  | some a' =>
      obtain ⟨ha', hname'⟩ := hfound hcase
      rw [List.inj_on_of_nodup_map hnames ha' ha (hname'.trans hname.symm)]

namespace FileSet

/-- The vertices of the graph of a set. -/
def elements (set : FileSet) : List Element := set.sites.map (Site.element set.mapEntries)

/-- The edges of the graph of a set: of ownership, and of reference. -/
def links (set : FileSet) : List PendingLink :=
  set.sites.filterMap (Site.ownerLink? set.mapEntries) ++ set.sites.flatMap (Site.references set)

variable {set : FileSet} {name : String} {m : MessageSite} {e : EnumSite}

theorem UniqueKeys.eq_of_key (h : set.UniqueKeys) {s s' : Site} (hs : s ∈ set.sites)
    (hs' : s' ∈ set.sites) (hkey : s.key = s'.key) : s = s' :=
  List.inj_on_of_nodup_map h hs hs' hkey

theorem UniqueKeys.message?_eq_some_iff (h : set.UniqueKeys) :
    set.message? name = some m ↔ m ∈ set.messageSites ∧ m.fullName = name :=
  find?_eq_some_iff_of_nodup h.messages

theorem message?_eq_none_iff :
    set.message? name = none ↔ ∀ m ∈ set.messageSites, m.fullName ≠ name := by
  simp [message?]

theorem UniqueKeys.enum?_eq_some_iff (h : set.UniqueKeys) :
    set.enum? name = some e ↔ e ∈ set.enumSites ∧ e.fullName = name :=
  find?_eq_some_iff_of_nodup h.enums

theorem enum?_eq_none_iff : set.enum? name = none ↔ ∀ e ∈ set.enumSites, e.fullName ≠ name := by
  simp [enum?]

theorem message_mem_keys :
    ElementKey.message name ∈ set.elements.map Element.key ↔
      ∃ m ∈ set.messageSites, m.fullName = name := by
  rw [elements, Site.map_key_element, List.mem_map]
  constructor
  · rintro ⟨s, hs, hkey⟩
    obtain ⟨m, rfl⟩ := Site.exists_message (congrArg ElementKey.kind hkey)
    exact ⟨m, message_mem_sites.mp hs, congrArg ElementKey.fullName hkey⟩
  · rintro ⟨m, hm, rfl⟩
    exact ⟨.message m, message_mem_sites.mpr hm, rfl⟩

theorem enum_mem_keys :
    ElementKey.enum name ∈ set.elements.map Element.key ↔
      ∃ e ∈ set.enumSites, e.fullName = name := by
  rw [elements, Site.map_key_element, List.mem_map]
  constructor
  · rintro ⟨s, hs, hkey⟩
    obtain ⟨e, rfl⟩ := Site.exists_enum (congrArg ElementKey.kind hkey)
    exact ⟨e, enum_mem_sites.mp hs, congrArg ElementKey.fullName hkey⟩
  · rintro ⟨e, he, rfl⟩
    exact ⟨.enum e, enum_mem_sites.mpr he, rfl⟩

end FileSet

/-- Two lists with the same values, up to order, match one by one. -/
theorem exists_forall₂_of_map_perm {α β γ : Type} {f : α → γ} {g : β → γ} {as : List α}
    {bs : List β} (h : (as.map f).Perm (bs.map g)) :
    ∃ bs', List.Forall₂ (fun a b => f a = g b) as bs' ∧ bs'.Perm bs := by
  have hbs : List.Forall₂ (fun c b => c = g b) (bs.map g) bs := by
    rw [List.forall₂_map_left_iff]
    exact List.forall₂_same.mpr fun _ _ => rfl
  obtain ⟨bs', hmatch, hperm⟩ := List.perm_comp_forall₂ h hbs
  exact ⟨bs', List.forall₂_map_left_iff.mp hmatch, hperm⟩

namespace Store

/-! ## Adding links only -/

/-- Two stores have the same vertices. -/
def SameVertices (g g' : Store) : Prop := g'.elements = g.elements ∧ g'.index = g.index

variable {g g' g'' : Store} {es : List Element} {ls : List PendingLink} {id source : VertexId}
variable {key : ElementKey}

theorem SameVertices.refl (g : Store) : g.SameVertices g := ⟨rfl, rfl⟩

theorem SameVertices.trans (h : g.SameVertices g') (h' : g'.SameVertices g'') :
    g.SameVertices g'' := ⟨h'.1.trans h.1, h'.2.trans h.2⟩

theorem SameVertices.element? (h : g.SameVertices g') (id : VertexId) :
    g'.element? id = g.element? id := by
  rw [Store.element?, h.1]
  rfl

theorem SameVertices.keyOf? (h : g.SameVertices g') (id : VertexId) :
    g'.keyOf? id = g.keyOf? id := by
  rw [Store.keyOf?, h.element?]
  rfl

theorem sameVertices_addLink (g : Store) (source target : VertexId) (edge : Edge) :
    g.SameVertices (g.addLink source target edge).2 := ⟨rfl, rfl⟩

/-- Links from one vertex, added one after the other. -/
theorem Holds.foldl_addLink {steps : List (VertexId × Edge)} {names : List PendingLink}
    (h : g.Holds es ls) (hsource : g.keyOf? source = some key)
    (hsteps : List.Forall₂ (fun step n => g.keyOf? step.1 = some n.target ∧ step.2 = n.edge ∧
      n.source = key) steps names) :
    (steps.foldl (fun g step => (g.addLink source step.1 step.2).2) g).Holds es (names ++ ls) ∧
      g.SameVertices (steps.foldl (fun g step => (g.addLink source step.1 step.2).2) g) := by
  induction steps generalizing g ls names with
  | nil =>
      obtain rfl := List.forall₂_nil_left_iff.mp hsteps
      exact ⟨h, SameVertices.refl g⟩
  | cons step steps ih =>
      obtain ⟨n, names, hstep, hrest, rfl⟩ := List.forall₂_cons_left_iff.mp hsteps
      obtain ⟨target, edge⟩ := step
      obtain ⟨s, t, e⟩ := n
      obtain ⟨htarget, rfl, rfl⟩ := hstep
      have hsame := sameVertices_addLink g source target edge
      have hadded := h.addLink edge hsource htarget
      obtain ⟨hholds, hsame'⟩ := ih hadded hsource hrest
      exact ⟨hholds.perm (List.Perm.refl _) List.perm_middle, hsame.trans hsame'⟩

end Store

/-! ## The fields to resolve -/

namespace Draft

variable {g : Store} {ids seen : List VertexId} {id : VertexId}

theorem mem_foldl_addNew : id ∈ ids.foldl addNew seen ↔ id ∈ seen ∨ id ∈ ids := by
  induction ids generalizing seen with
  | nil => simp
  | cons i rest ih =>
      rw [List.foldl_cons, ih, addNew, List.mem_cons]
      split
      · next hmem =>
        rw [List.contains_iff_mem] at hmem
        constructor
        · exact fun h => h.imp_right Or.inr
        · rintro (h | rfl | h)
          · exact Or.inl h
          · exact Or.inl hmem
          · exact Or.inr h
      · rw [List.mem_append, List.mem_singleton, or_assoc]

theorem nodup_foldl_addNew (h : seen.Nodup) : (ids.foldl addNew seen).Nodup := by
  induction ids generalizing seen with
  | nil => exact h
  | cons i rest ih =>
      rw [List.foldl_cons, addNew]
      split
      · exact ih h
      · next hmem =>
        refine ih (List.nodup_append.mpr ⟨h, List.nodup_singleton i, ?_⟩)
        rintro j hj k hk rfl
        rw [List.contains_iff_mem] at hmem
        exact hmem (List.mem_singleton.mp hk ▸ hj)

theorem nodup_referencing (g : Store) : (referencing g).Nodup :=
  nodup_foldl_addNew List.nodup_nil

theorem mem_referencing_iff :
    id ∈ referencing g ↔
      ∃ l ∈ g.links, (l.edge.kind = .field ∧ l.edge.isMessageType = true) ∧ l.target = id := by
  simp only [referencing, mem_foldl_addNew, List.not_mem_nil, false_or, List.mem_map,
    List.mem_filter, Store.linksById, Ordered.sort_eq_insertionSort, List.mem_insertionSort,
    Bool.and_eq_true, beq_iff_eq, and_assoc]

end Draft

section Resolve

variable {set : FileSet} {d : Draft} {g : Store} {id : VertexId} {f : FieldSite}
variable {ls : List PendingLink}

theorem isMessageType_element (s : Site) :
    (s.element set.mapEntries).isMessageType = true ↔
      ∃ f, s = .field f ∧ f.decl.type.isMessage = true := by
  cases s with
  | message m => simp [Site.element, MessageSite.element, MessageDecl.element, Scope.element,
      Element.withComment, Element.ofName, Element.isMessageType]
  | field f =>
      simp [Site.element, FieldSite.element, FieldDecl.element, Scope.element,
        Element.withComment, Element.ofName, Element.isMessageType]
  | group g => simp [Site.element, GroupSite.element, GroupSite.elementWith,
      Element.isMessageType]
  | enum e => simp [Site.element, EnumSite.element, EnumDecl.element, Scope.element,
      Element.withComment, Element.ofName, Element.isMessageType]

/-- Every edge of ownership goes into the vertex that it is labelled for. -/
theorem ownerLink?_eq_some {entries : List String} {s : Site} {n : PendingLink}
    (h : s.ownerLink? entries = some n) :
    n.target = s.key ∧ n.edge = Edge.into (s.element entries) := by
  obtain ⟨owner, -, rfl⟩ := Option.map_eq_some_iff.mp h
  exact ⟨rfl, rfl⟩

/-- The fields to resolve are the message-typed ones, each once. -/
theorem referencing_perm (hc : d.Covers set.mapEntries set.sites set.messageSites) :
    ((Draft.referencing d.store).map d.store.keyOf?).Perm
      ((set.sites.filter fun s => (s.element set.mapEntries).isMessageType).map
        fun s => some s.key) := by
  have hlive {id : VertexId} (hid : id ∈ Draft.referencing d.store) :
      ∃ s ∈ set.sites, (s.element set.mapEntries).isMessageType = true ∧
        d.store.keyOf? id = some s.key := by
    obtain ⟨l, hl, ⟨-, hmessage⟩, rfl⟩ := Draft.mem_referencing_iff.mp hid
    obtain ⟨n, hn⟩ := hc.holds.valid.exists_nameOf? hl
    obtain ⟨-, htarget, hedge⟩ := Store.nameOf?_eq_some_iff.mp hn
    have hmem := hc.holds.links.mem_iff.mp (Store.mem_namedLinks_iff.mpr ⟨l, hl, hn⟩)
    obtain ⟨s, hs, howner⟩ := List.mem_filterMap.mp hmem
    obtain ⟨hkey, hinto⟩ := ownerLink?_eq_some howner
    refine ⟨s, hs, ?_, htarget.trans (congrArg some hkey)⟩
    rw [hedge, hinto] at hmessage
    exact hmessage
  -- Neither side repeats a field, so it is enough that both have the same ones.
  refine (List.perm_ext_iff_of_nodup ?_ ?_).mpr fun key => ?_
  · refine (Draft.nodup_referencing d.store).map_on fun id hid id' hid' heq => ?_
    obtain ⟨s, -, -, hkey⟩ := hlive hid
    exact hc.holds.valid.eq_of_keyOf? hkey (heq ▸ hkey)
  · have hkeys : ((set.sites.filter fun s =>
        (s.element set.mapEntries).isMessageType).map Site.key).Nodup :=
      hc.nodup_keys.sublist (List.filter_sublist.map _)
    have hsome := hkeys.map fun _ _ h => Option.some.inj h
    rwa [List.map_map] at hsome
  · rw [List.mem_map, List.mem_map]
    constructor
    · rintro ⟨id, hid, rfl⟩
      obtain ⟨s, hs, hmessage, hkey⟩ := hlive hid
      exact ⟨s, List.mem_filter.mpr ⟨hs, hmessage⟩, hkey.symm⟩
    · rintro ⟨s, hs, rfl⟩
      obtain ⟨hs, hmessage⟩ := List.mem_filter.mp hs
      obtain ⟨f, rfl, -⟩ := (isMessageType_element s).mp hmessage
      have howner : f.ownerLink set.mapEntries ∈ d.store.namedLinks :=
        hc.holds.links.mem_iff.mpr (List.mem_filterMap.mpr ⟨_, hs, ownerLink?_field f⟩)
      obtain ⟨l, hl, hn⟩ := Store.mem_namedLinks_iff.mp howner
      obtain ⟨-, htarget, hedge⟩ := Store.nameOf?_eq_some_iff.mp hn
      refine ⟨l.target, Draft.mem_referencing_iff.mpr ⟨l, hl, ?_, rfl⟩, htarget⟩
      rw [hedge]
      exact ⟨rfl, hmessage⟩

/-- What a message directly owns is declared by the set. -/
theorem mem_sites_of_mem_owned {m : MessageSite} (hm : m ∈ set.messageSites) {s : Site}
    (hs : s ∈ m.owned) : s ∈ set.sites := by
  refine FileSet.mem_sites_iff.mpr (Or.inr ⟨m, hm, List.mem_cons_of_mem _ ?_⟩)
  refine List.mem_append_right _ ?_
  rcases List.mem_append.mp hs with hs | hs
  · exact List.mem_append_left _ ((List.filter_sublist.map _).subset hs)
  · exact List.mem_append_right _ hs

/-- The steps of a field to what its message owns. -/
theorem steps_forall₂ (hc : d.Covers set.mapEntries set.sites set.messageSites)
    {m : MessageSite} (hm : m ∈ set.messageSites) (hsame : d.store.SameVertices g)
    (key : ElementKey) :
    ∃ owned : List Site, owned.Perm m.owned ∧
      List.Forall₂ (fun (step : VertexId × Edge) (n : PendingLink) =>
        g.keyOf? step.1 = some n.target ∧ step.2 = n.edge ∧ n.source = key) (d.steps m.fullName)
        (owned.map fun s => ⟨key, s.key, Edge.into (s.element set.mapEntries)⟩) := by
  obtain ⟨owned, hmatch, hperm⟩ := exists_forall₂_of_map_perm (hc.owned m hm)
  have hsites : ∀ s ∈ owned, s ∈ set.sites := fun s hs =>
    mem_sites_of_mem_owned hm (hperm.mem_iff.mp hs)
  refine ⟨owned, hperm, ?_⟩
  rw [Draft.steps]
  clear hperm
  generalize d.ownedBy m.fullName = ids at hmatch
  induction hmatch with
  | nil => exact List.Forall₂.nil
  | @cons id s ids owned hkey _ ih =>
      have hmem : s.element set.mapEntries ∈ set.sites.map (Site.element set.mapEntries) :=
        List.mem_map_of_mem (hsites s List.mem_cons_self)
      have helement : d.store.element? id = some (s.element set.mapEntries) :=
        hc.holds.element?_of_keyOf? hmem (by rw [hkey, Site.key_element])
      rw [List.filterMap_cons_some (by rw [helement]; rfl), List.map_cons]
      refine List.Forall₂.cons ⟨?_, rfl, rfl⟩ (ih fun s hs => hsites s (List.mem_cons_of_mem _ hs))
      rw [hsame.keyOf?]
      exact hkey

/-- Resolving one message-typed field. -/
theorem resolve_holds (hu : set.UniqueKeys)
    (hc : d.Covers set.mapEntries set.sites set.messageSites) (hsame : d.store.SameVertices g)
    (hg : g.Holds set.elements ls) (hf : Site.field f ∈ set.sites)
    (hmessage : f.decl.type.isMessage = true) (hid : d.store.keyOf? id = some f.key) :
    (d.resolve g id).Holds set.elements ((Site.field f).messageReferences set ++ ls) ∧
      g.SameVertices (d.resolve g id) := by
  have hkey : g.keyOf? id = some f.key := (hsame.keyOf? id).trans hid
  have helement : g.element? id = some (f.element set.mapEntries) :=
    hg.element?_of_keyOf? (List.mem_map_of_mem (f := Site.element set.mapEntries) hf) hkey
  have hnative : (g.element? id).bind Element.nativeType = some f.decl.nativeType := by
    rw [helement]
    rfl
  simp only [Draft.resolve, hnative, Site.messageReferences, hmessage, if_true]
  cases hm : set.message? f.decl.nativeType with
  | none =>
      have hnot : ElementKey.message f.decl.nativeType ∉ set.elements.map Element.key := by
        intro h
        obtain ⟨m, hmem, hname⟩ := FileSet.message_mem_keys.mp h
        exact FileSet.message?_eq_none_iff.mp hm m hmem hname
      rw [hg.find?_eq_none hnot]
      exact ⟨hg, Store.SameVertices.refl g⟩
  | some m =>
      obtain ⟨hmem, hname⟩ := hu.message?_eq_some_iff.mp hm
      have hsite : m.element set.mapEntries ∈ set.elements :=
        List.mem_map_of_mem (FileSet.message_mem_sites.mpr hmem)
      obtain ⟨mid, hfound, hmkey, -⟩ := hg.exists_find? hsite
      have hfind : g.find? (.message f.decl.nativeType) = some mid := by
        rw [← hname]
        exact hfound
      -- The steps are read in the draft, whose vertices the graph still has.
      obtain ⟨owned, hperm, hsteps⟩ := steps_forall₂ hc hmem hsame f.key
      obtain ⟨hlinked, hsame'⟩ := hg.foldl_addLink hkey hsteps
      rw [hname] at hlinked hsame'
      simp only [hfind]
      generalize (d.steps f.decl.nativeType).foldl
        (fun g step => (g.addLink id step.1 step.2).2) g = g' at hlinked hsame'
      have helement' : g'.element? mid = some (m.element set.mapEntries) :=
        hlinked.element?_of_keyOf? hsite ((hsame'.keyOf? mid).trans hmkey)
      simp only [helement']
      refine ⟨(hlinked.addLink ⟨.typeRef, (m.element set.mapEntries).pathType, true⟩
        ((hsame'.keyOf? id).trans hkey) ((hsame'.keyOf? mid).trans hmkey)).perm
          (List.Perm.refl _) ?_, hsame'.trans (Store.sameVertices_addLink _ _ _ _)⟩
      rw [← List.cons_append]
      refine List.Perm.append_right ls ((List.perm_append_singleton _ _).symm.trans ?_)
      exact (hperm.map _).append_right _

/-- Resolving message-typed fields one after the other. -/
theorem foldl_resolve_holds (hu : set.UniqueKeys)
    (hc : d.Covers set.mapEntries set.sites set.messageSites) {ids : List VertexId}
    {sites : List Site}
    (hmatch : List.Forall₂ (fun id s => d.store.keyOf? id = some (Site.key s)) ids sites)
    (hsites : ∀ s ∈ sites, s ∈ set.sites ∧ (s.element set.mapEntries).isMessageType = true)
    (hsame : d.store.SameVertices g) (hg : g.Holds set.elements ls) :
    (ids.foldl d.resolve g).Holds set.elements
      (sites.flatMap (Site.messageReferences set) ++ ls) := by
  induction hmatch generalizing g ls with
  | nil => exact hg
  | cons hid _ ih =>
      obtain ⟨hs, hmessage⟩ := hsites _ List.mem_cons_self
      obtain ⟨f, rfl, hf⟩ := (isMessageType_element _).mp hmessage
      obtain ⟨hresolved, hsame'⟩ := resolve_holds hu hc hsame hg hs hf hid
      have hrest := ih (fun s hs => hsites s (List.mem_cons_of_mem _ hs)) (hsame.trans hsame')
        hresolved
      refine hrest.perm (List.Perm.refl _) ?_
      rw [List.flatMap_cons, ← List.append_assoc]
      exact List.perm_append_comm.append_right _

/-- An element that is not a field refers to no enum. -/
theorem linkEnum_of_kind {entry : VertexId × Element} (hkind : entry.2.kind ≠ .field) :
    Draft.linkEnum g entry = g := by
  simp [Draft.linkEnum, Draft.enumReference, hkind]

/-- Adding the edge of one element to its enum. -/
theorem linkEnum_holds (hu : set.UniqueKeys) (hg : g.Holds set.elements ls) {s : Site}
    (hs : s ∈ set.sites) (hmem : (id, s.element set.mapEntries) ∈ g.elements) :
    (Draft.linkEnum g (id, s.element set.mapEntries)).Holds set.elements
        (s.enumReferences set ++ ls) ∧
      g.SameVertices (Draft.linkEnum g (id, s.element set.mapEntries)) := by
  cases s with
  | message m =>
      rw [linkEnum_of_kind (by rintro ⟨⟩)]
      exact ⟨hg, Store.SameVertices.refl g⟩
  | group G =>
      rw [linkEnum_of_kind (by rintro ⟨⟩)]
      exact ⟨hg, Store.SameVertices.refl g⟩
  | enum e =>
      rw [linkEnum_of_kind (by rintro ⟨⟩)]
      exact ⟨hg, Store.SameVertices.refl g⟩
  | field f =>
      have hkey : g.keyOf? id = some f.key := hg.valid.keyOf?_of_mem hmem
      have hnative : (f.element set.mapEntries).nativeType = some f.decl.nativeType := rfl
      have hkind : (f.element set.mapEntries).kind = .field := rfl
      simp only [Draft.linkEnum, Draft.enumReference, Site.enumReferences, Site.element, hkind,
        hnative, true_and]
      by_cases htag : Text.endsWith (f.element set.mapEntries).pathType enumTag = true
      · simp only [htag, if_true]
        cases he : set.enum? f.decl.nativeType with
        | none =>
            have hnot : ElementKey.enum f.decl.nativeType ∉ set.elements.map Element.key := by
              intro h
              obtain ⟨e, hmem, hname⟩ := FileSet.enum_mem_keys.mp h
              exact FileSet.enum?_eq_none_iff.mp he e hmem hname
            rw [hg.find?_eq_none hnot]
            exact ⟨hg, Store.SameVertices.refl g⟩
        | some e =>
            obtain ⟨henum, hname⟩ := hu.enum?_eq_some_iff.mp he
            have hsite : (Site.enum e).element set.mapEntries ∈ set.elements :=
              List.mem_map_of_mem (FileSet.enum_mem_sites.mpr henum)
            obtain ⟨eid, hfound, hekey, helement⟩ := hg.exists_find? hsite
            rw [Site.key_element] at hfound hekey
            have hfind : g.find? (.enum f.decl.nativeType) = some eid := by
              rw [← hname]
              exact hfound
            simp only [hfind, helement, Option.map_some]
            exact ⟨hg.addLink _ hkey hekey, Store.sameVertices_addLink _ _ _ _⟩
      · simp only [htag, Bool.false_eq_true, if_false]
        exact ⟨hg, Store.SameVertices.refl g⟩

/-- Adding the edges of several elements to their enums. -/
theorem foldl_linkEnum_holds (hu : set.UniqueKeys) {entries : List (VertexId × Element)}
    {sites : List Site}
    (hmatch : List.Forall₂ (fun (entry : VertexId × Element) s =>
      entry.2 = Site.element set.mapEntries s) entries sites)
    (hsites : ∀ s ∈ sites, s ∈ set.sites) (hentries : ∀ entry ∈ entries, entry ∈ g.elements)
    (hg : g.Holds set.elements ls) :
    (entries.foldl Draft.linkEnum g).Holds set.elements
      (sites.flatMap (Site.enumReferences set) ++ ls) := by
  induction hmatch generalizing g ls with
  | nil => exact hg
  | @cons entry s entries sites hentry _ ih =>
      obtain ⟨id, e⟩ := entry
      obtain rfl : e = s.element set.mapEntries := hentry
      obtain ⟨hlinked, hsame⟩ := linkEnum_holds hu hg (hsites s List.mem_cons_self)
        (hentries _ List.mem_cons_self)
      refine (ih (fun s hs => hsites s (List.mem_cons_of_mem _ hs)) (fun entry hmem => ?_)
        hlinked).perm (List.Perm.refl _) ?_
      · rw [hsame.1]
        exact hentries entry (List.mem_cons_of_mem _ hmem)
      · rw [List.flatMap_cons, ← List.append_assoc]
        exact List.perm_append_comm.append_right _

/-- What has no edges to add may be passed over. -/
theorem flatMap_filter_of_nil {α β : Type} {as : List α} {p : α → Bool} {f : α → List β}
    (hnil : ∀ a ∈ as, p a = false → f a = []) : (as.filter p).flatMap f = as.flatMap f := by
  induction as with
  | nil => rfl
  | cons a rest ih =>
      have hrest := ih fun a ha => hnil a (List.mem_cons_of_mem _ ha)
      cases hp : p a with
      | false =>
          rw [List.filter_cons_of_neg (by simp [hp]), List.flatMap_cons,
            hnil a List.mem_cons_self hp, hrest, List.nil_append]
      | true =>
          rw [List.filter_cons_of_pos hp, List.flatMap_cons, List.flatMap_cons, hrest]

/-- The graph of a set holds a vertex for each declaration, the edges of
ownership and the edges of reference. -/
theorem holds_ofSet (h : set.UniqueKeys) :
    (Draft.ofSet set).store.Holds set.elements set.links := by
  have hc := covers_ofDeclarations h
  rw [Draft.ofSet, Draft.resolveAll]
  generalize Draft.ofDeclarations set.declarations = d at hc
  have hperm : ((Draft.referencing d.store).map d.store.keyOf?).Perm
      ((set.sites.filter fun s => (s.element set.mapEntries).isMessageType).map
        fun s => some s.key) := referencing_perm hc
  obtain ⟨fields, hfields, hfieldsPerm⟩ := exists_forall₂_of_map_perm hperm
  have hresolved := foldl_resolve_holds h hc hfields
    (fun s hs => List.mem_filter.mp (hfieldsPerm.mem_iff.mp hs)) (Store.SameVertices.refl _)
    hc.holds
  dsimp only
  generalize (Draft.referencing d.store).foldl d.resolve d.store = g at hresolved
  obtain ⟨sites, hsites, hsitesPerm⟩ := exists_forall₂_of_map_perm hresolved.elements
  have hlinked := foldl_linkEnum_holds h hsites (fun s hs => hsitesPerm.mem_iff.mp hs)
    (fun _ hmem => hmem) hresolved
  refine hlinked.perm (List.Perm.refl _) ?_
  -- Fields that are not message-typed were passed over, and add nothing.
  have hmessages : (fields.flatMap (Site.messageReferences set)).Perm
      (set.sites.flatMap (Site.messageReferences set)) := by
    refine (hfieldsPerm.flatMap_right _).trans (List.Perm.of_eq (flatMap_filter_of_nil ?_))
    intro s _ hmessage
    cases s with
    | message m => rfl
    | field f =>
        have hfield : f.decl.type.isMessage = false := hmessage
        rw [Site.messageReferences, hfield]
        exact if_neg Bool.false_ne_true
    | group G => rfl
    | enum e => rfl
  have henums := hsitesPerm.flatMap_right (Site.enumReferences set)
  have hreferences : (set.sites.flatMap (Site.messageReferences set) ++
      set.sites.flatMap (Site.enumReferences set)).Perm (set.sites.flatMap (Site.references set)) :=
    List.flatMap_append_perm _ _ _
  rw [← List.append_assoc]
  refine List.perm_append_comm.trans (List.Perm.append_left _ ?_)
  exact ((henums.append hmessages).trans List.perm_append_comm).trans hreferences

end Resolve

end SchemaGraph

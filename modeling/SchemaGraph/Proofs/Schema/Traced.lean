import SchemaGraph.Proofs.Schema.Resolve
import SchemaGraph.Proofs.Store.Operations

/-!
# Graphs of any set

What is known of the graph of a set whatever its names are, also where
declarations share full names and stand in each other's place.  `Store.Traced`
says that

* the store is reached by operations on the empty one;
* every vertex is drawn from some declaration of the set (`Site.Draws`);
* an edge that leaves a field leads to an enum, or the declared type of the field
  is the name of a message that is there.

Each step of taking up a declaration or resolving a reference keeps this, so it
holds of the graph of every set (`traced_ofSet`).  Which edges there are is not
said here.
-/

namespace SchemaGraph

/-- A vertex is that of a declaration; a group may have any members. -/
def Site.Draws (entries : List String) : Site → Element → Prop
  | .group g, e => ∃ members, e = g.elementWith entries members
  | .message m, e => e = m.element entries
  | .field f, e => e = f.element entries
  | .enum s, e => e = s.element entries

/-- A step of taking up a set is that of one of its declarations. -/
def Declaration.StandsIn (set : FileSet) : Declaration → Prop
  | .element e => ∃ s ∈ set.sites, s.Draws set.mapEntries e
  | .members _ taken =>
    ∃ m ∈ set.messageSites, taken = m.fields.map (FieldSite.member set.mapEntries)

/-- A store has come from taking up a set and resolving references. -/
structure Store.Traced (set : FileSet) (g : Store) : Prop where
  reachable : g.Reachable
  elements : ∀ id e, (id, e) ∈ g.elements → ∃ s ∈ set.sites, s.Draws set.mapEntries e
  links : ∀ l ∈ g.links, ∀ s t, (l.source, s) ∈ g.elements → (l.target, t) ∈ g.elements →
    s.kind = .field → t.kind = .enum ∨
      ∃ name, s.nativeType = some name ∧ ElementKey.message name ∈ g.keys

theorem Site.draws_element (entries : List String) (s : Site) : s.Draws entries (s.element entries) := by
  cases s with
  | message m => rfl
  | field f => rfl
  | group g => exact ⟨g.members, rfl⟩
  | enum e => rfl

/-- A vertex has the identity of the declaration that it is drawn from. -/
theorem Site.Draws.key {entries : List String} {s : Site} {e : Element} (h : s.Draws entries e) :
    e.key = s.key := by
  cases s with
  | message m =>
      obtain rfl : e = m.element entries := h
      rfl
  | field f =>
      obtain rfl : e = f.element entries := h
      rfl
  | group g =>
      obtain ⟨members, rfl⟩ := h
      rfl
  | enum s =>
      obtain rfl : e = s.element entries := h
      exact s.key_element entries

namespace Element

theorem nativeType_addMember (e : Element) (member : String) :
    (e.addMember member).nativeType = e.nativeType := by
  rw [addMember]
  split
  · next fields h => simp [nativeType, h]
  · rfl

end Element

/-- A further member leaves a vertex drawn from its declaration. -/
theorem Site.Draws.addMember {entries : List String} {s : Site} {e : Element}
    (h : s.Draws entries e) (member : String) : s.Draws entries (e.addMember member) := by
  cases s with
  | message m =>
      obtain rfl : e = m.element entries := h
      rfl
  | field f =>
      obtain rfl : e = f.element entries := h
      rfl
  | group g =>
      obtain ⟨members, rfl⟩ := h
      exact ⟨members ++ [member], rfl⟩
  | enum s =>
      obtain rfl : e = s.element entries := h
      rfl

namespace Store

variable {set : FileSet} {g g' : Store} {id owner source target : VertexId} {key : ElementKey}
variable {e : Element}

/-! ## Single operations -/

theorem traced_empty : ({} : Store).Traced set where
  reachable := Reachable.empty
  elements := fun _ _ h => absurd h List.not_mem_nil
  links := fun _ h => absurd h List.not_mem_nil

theorem Traced.valid (h : g.Traced set) : g.Valid := h.reachable.valid

/-- Vertices may come, and change in what no edge depends on. -/
theorem Traced.of_vertices (h : g.Traced set) (hreachable : g'.Reachable)
    (helements : ∀ id e, (id, e) ∈ g'.elements → ∃ s ∈ set.sites, s.Draws set.mapEntries e)
    (hlinks : g'.links = g.links)
    (hsame : ∀ id e, (id, e) ∈ g.elements → ∃ e', (id, e') ∈ g'.elements ∧ e'.key = e.key ∧
      e'.nativeType = e.nativeType) : g'.Traced set where
  reachable := hreachable
  elements := helements
  links := by
    intro l hl s t hs ht hfield
    rw [hlinks] at hl
    obtain ⟨hsource, htarget⟩ := h.valid.ends l hl
    obtain ⟨s₀, hs₀⟩ := mem_ids_iff.mp hsource
    obtain ⟨t₀, ht₀⟩ := mem_ids_iff.mp htarget
    obtain ⟨s', hs', hskey, hstype⟩ := hsame _ _ hs₀
    obtain ⟨t', ht', htkey, -⟩ := hsame _ _ ht₀
    obtain rfl := hreachable.valid.eq_of_id hs hs'
    obtain rfl := hreachable.valid.eq_of_id ht ht'
    have hskind : s.kind = s₀.kind := congrArg ElementKey.kind hskey
    have htkind : t.kind = t₀.kind := congrArg ElementKey.kind htkey
    rcases h.links l hl s₀ t₀ hs₀ ht₀ (hskind.symm.trans hfield) with henum | ⟨name, hname, hmem⟩
    · exact Or.inl (htkind.trans henum)
    · obtain ⟨i, m, hm, hmkey⟩ := mem_keys_iff.mp hmem
      obtain ⟨m', hm', hsame', -⟩ := hsame _ _ hm
      exact Or.inr ⟨name, hstype.trans hname, mem_keys_iff.mpr ⟨i, m', hm', hsame'.trans hmkey⟩⟩

theorem Traced.addElement (h : g.Traced set) {s : Site} (hs : s ∈ set.sites)
    (hdraws : s.Draws set.mapEntries e) : (g.addElement e).2.Traced set := by
  refine h.of_vertices (h.reachable.step (.addElement e) trivial) (fun id e' hmem => ?_)
    (links_addElement g e) fun id e' hmem => ⟨e', mem_elements_addElement hmem, rfl, rfl⟩
  rcases of_mem_elements_addElement hmem with hmem | rfl
  · exact h.elements id e' hmem
  · exact ⟨s, hs, hdraws⟩

theorem Traced.addMember (h : g.Traced set) (id : VertexId) (member : String) :
    (g.update id (Element.addMember member)).Traced set := by
  refine h.of_vertices (h.reachable.step (.addMember id member) trivial) (fun i e hmem => ?_) rfl
    fun i e hmem => ?_
  · rw [elements_update] at hmem
    obtain ⟨⟨j, e'⟩, hold, heq⟩ := List.mem_map.mp hmem
    obtain ⟨rfl, rfl⟩ := Prod.mk.inj heq
    obtain ⟨s, hs, hdraws⟩ := h.elements j e' hold
    refine ⟨s, hs, ?_⟩
    show s.Draws set.mapEntries (if j = id then _ else _)
    split
    · exact hdraws.addMember member
    · exact hdraws
  · rw [elements_update]
    refine ⟨_, List.mem_map.mpr ⟨(i, e), hmem, rfl⟩, ?_, ?_⟩
    · show Element.key (if i = id then _ else _) = _
      split
      · exact e.key_addMember member
      · rfl
    · show Element.nativeType (if i = id then _ else _) = _
      split
      · exact e.nativeType_addMember member
      · rfl

/-- An edge is added that leaves no field, or leads where fields may. -/
theorem Traced.addLink (h : g.Traced set) (edge : Edge) (hsource : source ∈ g.ids)
    (htarget : target ∈ g.ids)
    (hmay : ∀ s t, (source, s) ∈ g.elements → (target, t) ∈ g.elements → s.kind = .field →
      t.kind = .enum ∨ ∃ name, s.nativeType = some name ∧ ElementKey.message name ∈ g.keys) :
    (g.addLink source target edge).2.Traced set where
  reachable := h.reachable.step (.addLink source target edge)
    ⟨h.valid.isSome_element?_iff.mpr hsource, h.valid.isSome_element?_iff.mpr htarget⟩
  elements := h.elements
  links := by
    intro l hl s t hs ht hfield
    rcases List.mem_cons.mp hl with rfl | hl
    · exact hmay s t hs ht hfield
    · exact h.links l hl s t hs ht hfield

/-- An edge from a vertex that is no field is added. -/
theorem Traced.addLink_of_kind (h : g.Traced set) (edge : Edge)
    (hsource : g.keyOf? source = some key) (hkind : key.kind ≠ .field) (htarget : target ∈ g.ids) :
    (g.addLink source target edge).2.Traced set := by
  refine h.addLink edge (h.valid.mem_ids_of_keyOf? hsource) htarget fun s t hs _ hfield => ?_
  rw [h.valid.keyOf?_of_mem hs] at hsource
  rw [← Option.some.inj hsource] at hkind
  exact absurd hfield hkind

/-- What an addition gives the number of has the identity that was asked for. -/
theorem Valid.keyOf?_addElement (h : g.Valid) (e : Element) :
    (g.addElement e).2.keyOf? (g.addElement e).1 = some e.key := by
  cases hfind : g.find? e.key with
  | some id =>
      rw [addElement_of_find? hfind]
      exact h.keyOf?_eq_some_iff_find?.mpr hfind
  | none =>
      obtain ⟨-, hadded⟩ := h.handsOutFresh.element e hfind
      rw [keyOf?, hadded]
      rfl

/-! ## Declarations -/

theorem keeps_enterGroup (h : g.Valid) (owner : VertexId) (group : Element) :
    g.Keeps (Draft.enterGroup g owner group).2 := by
  cases hfind : g.find? group.key with
  | some id =>
      rw [enterGroup_of_find? hfind]
      exact Keeps.refl g
  | none =>
      rw [enterGroup_of_find?_none hfind]
      exact keeps_addElement h group

/-- The group of a field is entered from the message. -/
theorem Traced.enterGroup (h : g.Traced set) {G : GroupSite} (hG : Site.group G ∈ set.sites)
    (howner : g.keyOf? owner = some key) (hkind : key.kind ≠ .field) :
    (Draft.enterGroup g owner (G.elementWith set.mapEntries [])).2.Traced set ∧
      (Draft.enterGroup g owner (G.elementWith set.mapEntries [])).2.keyOf?
        (Draft.enterGroup g owner (G.elementWith set.mapEntries [])).1 = some G.key := by
  cases hfind : g.find? (G.elementWith set.mapEntries []).key with
  | some id =>
      rw [enterGroup_of_find? hfind]
      exact ⟨h, h.valid.keyOf?_eq_some_iff_find?.mpr hfind⟩
  | none =>
      have hadded := h.addElement hG ⟨[], rfl⟩
      have hid := h.valid.keyOf?_addElement (G.elementWith set.mapEntries [])
      have howner' := keeps_addElement h.valid (G.elementWith set.mapEntries []) _ _ howner
      rw [enterGroup_of_find?_none hfind]
      exact ⟨hadded.addLink_of_kind _ howner' hkind (hadded.valid.mem_ids_of_keyOf? hid), hid⟩

/-- A field of a message is taken up. -/
theorem Traced.takeMember {state : Store × List VertexId} {f : FieldSite}
    (h : state.1.Traced set) (hf : f ∈ set.fieldSites)
    (howner : state.1.keyOf? owner = some key) (hkind : key.kind ≠ .field) :
    (Draft.addMember owner state (f.member set.mapEntries)).1.Traced set ∧
      state.1.Keeps (Draft.addMember owner state (f.member set.mapEntries)).1 := by
  obtain ⟨g, owned⟩ := state
  have hadded : (g.addElement (f.element set.mapEntries)).2.Traced set :=
    h.addElement (FileSet.field_mem_sites.mpr hf) (Site.draws_element _ (.field f))
  have hid := h.valid.keyOf?_addElement (f.element set.mapEntries)
  have hkeeps := keeps_addElement h.valid (f.element set.mapEntries)
  cases hgroup : f.group? with
  | none =>
      have hstep : (Draft.addMember owner (g, owned) (f.member set.mapEntries)).1 =
          ((g.addElement (f.element set.mapEntries)).2.addLink owner
            (g.addElement (f.element set.mapEntries)).1 (Edge.into (f.element set.mapEntries))).2 := by
        simp [Draft.addMember, f.field_member, f.group_member, hgroup]
      rw [hstep]
      exact ⟨hadded.addLink_of_kind _ (hkeeps _ _ howner) hkind
        (hadded.valid.mem_ids_of_keyOf? hid), hkeeps⟩
  | some G =>
      have hG : Site.group G ∈ set.sites := by
        obtain ⟨hmessage, hmem⟩ := FileSet.mem_fieldSites_iff.mp hf
        have hmemG := FieldSite.group_mem_groups hmem hgroup
        refine FileSet.group_mem_sites.mpr (FileSet.mem_groupSites_iff.mpr ?_)
        rw [MessageSite.message_of_mem_groups hmemG]
        exact ⟨hmessage, hmemG⟩
      generalize hg' : g.addElement (f.element set.mapEntries) = added at hadded hid hkeeps
      obtain ⟨fieldId, g'⟩ := added
      obtain ⟨hentered, hgroupId⟩ := Traced.enterGroup hadded hG (hkeeps _ _ howner) hkind
      have hkeeps' := keeps_enterGroup hadded.valid owner (G.elementWith set.mapEntries [])
      generalize henter : Draft.enterGroup g' owner (G.elementWith set.mapEntries []) = entered
        at hentered hgroupId hkeeps'
      obtain ⟨groupId, g''⟩ := entered
      have hmember := keeps_update g'' groupId fun e => Element.key_addMember e f.decl.name
      have hupdated := hentered.addMember groupId f.decl.name
      have hstep : (Draft.addMember owner (g, owned) (f.member set.mapEntries)).1 =
          ((g''.update groupId (Element.addMember f.decl.name)).addLink groupId fieldId
            (Edge.into (f.element set.mapEntries))).2 := by
        have hname : (f.member set.mapEntries).name = f.decl.name := rfl
        simp only [Draft.addMember, f.field_member, f.group_member, hgroup, Option.map_some, hname,
          hg', henter]
      rw [hstep]
      exact ⟨hupdated.addLink_of_kind _ (hmember _ _ hgroupId)
          (by intro heq; cases heq)
          (hupdated.valid.mem_ids_of_keyOf? (hmember _ _ (hkeeps' _ _ hid))),
        hkeeps.trans (hkeeps'.trans hmember)⟩

/-- Fields of a message are taken up one after the other. -/
theorem Traced.takeMembers {fields : List FieldSite} {state : Store × List VertexId}
    (h : state.1.Traced set) (hfields : ∀ f ∈ fields, f ∈ set.fieldSites)
    (howner : state.1.keyOf? owner = some key) (hkind : key.kind ≠ .field) :
    ((fields.map (FieldSite.member set.mapEntries)).foldl (Draft.addMember owner)
      state).1.Traced set := by
  induction fields generalizing state with
  | nil => exact h
  | cons f rest ih =>
      obtain ⟨hstep, hkeeps⟩ := h.takeMember (hfields f List.mem_cons_self) howner hkind
      exact ih hstep (fun f' hf' => hfields f' (List.mem_cons_of_mem _ hf')) (hkeeps _ _ howner)

end Store

namespace Draft

open Store

variable {set : FileSet} {d : Draft}

/-- A declaration of a set is taken up. -/
theorem traced_declare (h : d.store.Traced set) {declaration : Declaration}
    (hstands : declaration.StandsIn set) : (d.declare declaration).store.Traced set := by
  cases declaration with
  | element e =>
      obtain ⟨s, hs, hdraws⟩ := hstands
      exact h.addElement hs hdraws
  | members name taken =>
      obtain ⟨m, hm, rfl⟩ := hstands
      rw [declare]
      split
      · exact h
      · next owner hfind =>
        refine h.takeMembers (fun f hf => ?_) (h.valid.keyOf?_eq_some_iff_find?.mpr hfind)
          (by intro heq; cases heq)
        exact FileSet.mem_fieldSites_iff.mpr (MessageSite.message_of_mem_fields hf ▸ ⟨hm, hf⟩)

theorem traced_ofDeclarations {declarations : List Declaration}
    (h : ∀ declaration ∈ declarations, declaration.StandsIn set) :
    (ofDeclarations declarations).store.Traced set := by
  suffices hfold : ∀ d : Draft, d.store.Traced set →
      (declarations.foldl declare d).store.Traced set from hfold {} traced_empty
  induction declarations with
  | nil => exact fun _ hd => hd
  | cons declaration rest ih =>
      intro d hd
      exact ih (fun later hlater => h later (List.mem_cons_of_mem _ hlater)) _
        (traced_declare hd (h declaration List.mem_cons_self))

end Draft

/-! ## The declarations of a set are those of its sites -/

section Declarations

variable {set : FileSet}

theorem standsIn_of_enums {enums : List EnumSite} (henums : ∀ e ∈ enums, e ∈ set.enumSites) :
    ∀ declaration ∈ (enums.map Site.enum).map (fun s => Declaration.element
      (s.element set.mapEntries)), declaration.StandsIn set := by
  intro declaration hmem
  obtain ⟨s, hs, rfl⟩ := List.mem_map.mp hmem
  obtain ⟨e, he, rfl⟩ := List.mem_map.mp hs
  exact ⟨.enum e, FileSet.enum_mem_sites.mpr (henums e he), Site.draws_element _ _⟩

/-- The declarations of a message, given those of the messages inside it. -/
theorem standsIn_message {m : MessageSite} (hm : m ∈ set.messageSites)
    (hnested : ∀ declaration ∈ nestedDeclarations ⟨m.file, set.mapEntries⟩
      (parentName m.file m.inner) m.path messageNested 0 m.decl.nested, declaration.StandsIn set) :
    ∀ declaration ∈ m.decl.declarations ⟨m.file, set.mapEntries⟩ (parentName m.file m.outer) m.path,
      declaration.StandsIn set := by
  intro declaration hmem
  simp only [declarations_eq, List.mem_append, List.mem_singleton] at hmem
  rcases hmem with rfl | hmem | hmem | rfl
  · exact ⟨.message m, FileSet.message_mem_sites.mpr hm, Site.draws_element _ _⟩
  · exact hnested declaration hmem
  · refine standsIn_of_enums (fun e he => FileSet.enum_mem_sites.mp ?_) declaration hmem
    exact FileSet.mem_sites_iff.mpr (Or.inr ⟨m, hm, MessageSite.enum_mem_sites.mpr he⟩)
  · exact ⟨m, hm, MessageSite.members_eq _ m⟩

mutual

theorem standsIn_declarations (decl : MessageDecl) (file : FileDecl) (outer : List String)
    (path : List Int32)
    (hsites : ∀ m ∈ decl.sites file outer path, m ∈ set.messageSites) :
    ∀ declaration ∈ decl.declarations ⟨file, set.mapEntries⟩ (parentName file outer) path,
      declaration.StandsIn set := by
  match decl with
  | ⟨name, fields, nested, enums, extensions, oneofs, isMapEntry⟩ =>
    exact standsIn_message (m := ⟨file, outer, path, _⟩) (hsites _ List.mem_cons_self)
      (standsIn_nestedDeclarations nested file (outer ++ [name]) path messageNested 0
        fun m hmem => hsites m (List.mem_cons_of_mem _ hmem))

theorem standsIn_nestedDeclarations (decls : List MessageDecl) (file : FileDecl)
    (outer : List String) (path : List Int32) (list : Int32) (position : Nat)
    (hsites : ∀ m ∈ nestedSites file outer path list position decls, m ∈ set.messageSites) :
    ∀ declaration ∈ nestedDeclarations ⟨file, set.mapEntries⟩ (parentName file outer) path list
      position decls, declaration.StandsIn set := by
  match decls with
  | [] => simp [nestedDeclarations]
  | decl :: rest =>
    have hfirst := standsIn_declarations decl file outer (childPath path list position)
      fun m hm => hsites m (by rw [nestedSites]; exact List.mem_append_left _ hm)
    have hrest := standsIn_nestedDeclarations rest file outer path list (position + 1)
      fun m hm => hsites m (by rw [nestedSites]; exact List.mem_append_right _ hm)
    rw [nestedDeclarations]
    intro declaration hmem
    exact (List.mem_append.mp hmem).elim (hfirst declaration) (hrest declaration)

end

/-- Every step of taking up a set is that of one of its declarations. -/
theorem standsIn_of_mem {declaration : Declaration} (h : declaration ∈ set.declarations) :
    declaration.StandsIn set := by
  obtain ⟨file, hfile, hmem⟩ := List.mem_flatMap.mp h
  rcases List.mem_append.mp hmem with hmem | hmem
  · rw [file.enumDeclarations_file] at hmem
    refine standsIn_of_enums (fun e he => ?_) declaration hmem
    exact List.mem_flatMap.mpr ⟨file, hfile, List.mem_append_left _ he⟩
  · refine standsIn_nestedDeclarations file.messages file [] [] fileMessages 0 (fun m hm => ?_)
      declaration hmem
    exact List.mem_flatMap.mpr ⟨file, hfile, hm⟩

end Declarations

/-! ## References -/

namespace Store

variable {set : FileSet} {g g' : Store} {d : Draft} {id : VertexId}

/-- Edges from one vertex are added, all of which lead where they may. -/
theorem Traced.addLinks {steps : List (VertexId × Edge)} {source : VertexId} (h : g.Traced set)
    (hsource : source ∈ g.ids) (hsteps : ∀ step ∈ steps, step.1 ∈ g.ids)
    (hmay : ∀ s, (source, s) ∈ g.elements → s.kind = .field →
      ∃ name, s.nativeType = some name ∧ ElementKey.message name ∈ g.keys) :
    (steps.foldl (fun g step => (g.addLink source step.1 step.2).2) g).Traced set ∧
      g.SameVertices (steps.foldl (fun g step => (g.addLink source step.1 step.2).2) g) := by
  induction steps generalizing g with
  | nil => exact ⟨h, SameVertices.refl g⟩
  | cons step rest ih =>
      have hlinked := h.addLink step.2 hsource (hsteps step List.mem_cons_self)
        fun s _ hs _ hfield => Or.inr (hmay s hs hfield)
      obtain ⟨htraced, hsame⟩ := ih hlinked hsource
        (fun later hlater => hsteps later (List.mem_cons_of_mem _ hlater)) hmay
      exact ⟨htraced, (sameVertices_addLink g source step.1 step.2).trans hsame⟩

theorem Traced.resolve (h : g.Traced set) (hsame : d.store.SameVertices g) (field : VertexId) :
    (d.resolve g field).Traced set ∧ d.store.SameVertices (d.resolve g field) := by
  rw [Draft.resolve]
  split
  · exact ⟨h, hsame⟩
  next type htype =>
  obtain ⟨e, he, hnative⟩ := Option.bind_eq_some_iff.mp htype
  have hmem := h.valid.element?_eq_some_iff.mp he
  split
  · exact ⟨h, hsame⟩
  next message hfind =>
  have hmessage : ElementKey.message type ∈ g.keys := by
    obtain ⟨m, hm, hkey⟩ := h.valid.find?_eq_some_iff.mp hfind
    exact mem_keys_iff.mpr ⟨message, m, hm, hkey⟩
  have hmay (s : Element) (hs : (field, s) ∈ g.elements) :
      ∃ name, s.nativeType = some name ∧ ElementKey.message name ∈ g.keys := by
    obtain rfl := h.valid.eq_of_id hs hmem
    exact ⟨type, hnative, hmessage⟩
  have hsteps (step : VertexId × Edge) (hstep : step ∈ d.steps type) : step.1 ∈ g.ids := by
    obtain ⟨id, -, hid⟩ := List.mem_filterMap.mp hstep
    obtain ⟨e, he, rfl⟩ := Option.map_eq_some_iff.mp hid
    rw [← hsame.element?] at he
    exact mem_ids_iff.mpr ⟨e, h.valid.element?_eq_some_iff.mp he⟩
  obtain ⟨hstepped, hstill⟩ :=
    h.addLinks (mem_ids_iff.mpr ⟨e, hmem⟩) hsteps fun s hs _ => hmay s hs
  dsimp only
  generalize (d.steps type).foldl (fun g step => (g.addLink field step.1 step.2).2) g = stepped
    at hstepped hstill
  have hids : stepped.ids = g.ids := by rw [ids, hstill.1, ids]
  have hkeys : stepped.keys = g.keys := by rw [keys, hstill.1, keys]
  split
  · exact ⟨hstepped, hsame.trans hstill⟩
  · refine ⟨hstepped.addLink _ (hids ▸ mem_ids_iff.mpr ⟨e, hmem⟩)
      (hids ▸ h.valid.mem_ids_of_find? hfind) fun s t hs _ _ => Or.inr ?_,
      (hsame.trans hstill).trans (sameVertices_addLink _ _ _ _)⟩
    rw [hstill.1] at hs
    rw [hkeys]
    exact hmay s hs

theorem Traced.foldl_resolve (h : g.Traced set) (hsame : d.store.SameVertices g)
    (fields : List VertexId) :
    (fields.foldl d.resolve g).Traced set := by
  induction fields generalizing g with
  | nil => exact h
  | cons field rest ih =>
      obtain ⟨htraced, hstill⟩ := h.resolve hsame field
      exact ih htraced hstill

theorem Traced.linkEnum (h : g.Traced set) {entry : VertexId × Element}
    (hentry : entry ∈ g.elements) :
    (Draft.linkEnum g entry).Traced set ∧ g.SameVertices (Draft.linkEnum g entry) := by
  rw [Draft.linkEnum]
  split
  · exact ⟨h, SameVertices.refl g⟩
  next id edge hedge =>
  refine ⟨?_, sameVertices_addLink _ _ _ _⟩
  obtain ⟨type, hfind⟩ : ∃ type, g.find? (.enum type) = some id := by
    unfold Draft.enumReference at hedge
    split at hedge
    · split at hedge
      · cases hedge
      · next type _ =>
        split at hedge
        · cases hedge
        · next found hfind =>
          obtain ⟨t, -, heq⟩ := Option.map_eq_some_iff.mp hedge
          obtain ⟨rfl, -⟩ := Prod.mk.inj heq
          exact ⟨type, hfind⟩
    · cases hedge
  obtain ⟨t, ht, hkey⟩ := h.valid.find?_eq_some_iff.mp hfind
  refine h.addLink edge (mem_ids_iff.mpr ⟨entry.2, hentry⟩) (mem_ids_iff.mpr ⟨t, ht⟩)
    fun _ t' _ ht' _ => Or.inl ?_
  obtain rfl := h.valid.eq_of_id ht' ht
  exact congrArg ElementKey.kind hkey

theorem Traced.foldl_linkEnum (h : g.Traced set) {entries : List (VertexId × Element)}
    (hentries : ∀ entry ∈ entries, entry ∈ g.elements) :
    (entries.foldl Draft.linkEnum g).Traced set := by
  induction entries generalizing g with
  | nil => exact h
  | cons entry rest ih =>
      obtain ⟨htraced, hsame⟩ := h.linkEnum (hentries entry List.mem_cons_self)
      refine ih htraced fun later hlater => ?_
      rw [hsame.1]
      exact hentries later (List.mem_cons_of_mem _ hlater)

/-- The graph of every set is traced. -/
theorem traced_ofSet (set : FileSet) : (Draft.ofSet set).store.Traced set := by
  have hdeclared : (Draft.ofDeclarations set.declarations).store.Traced set :=
    Draft.traced_ofDeclarations fun _ => standsIn_of_mem
  exact (hdeclared.foldl_resolve (SameVertices.refl _) _).foldl_linkEnum fun _ h => h

end Store

end SchemaGraph

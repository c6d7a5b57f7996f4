import SchemaGraph.Proofs.Schema.FieldTypes
import SchemaGraph.Proofs.Schema.Links

/-!
# The edges that leave a field

What a field leads to is said by its declared type (`FieldSite.LeadsTo`):

* a field typed as a message of the set leads to everything the message directly
  owns and to the message itself, wherever that is declared;
* a field typed as an enum of the set leads to the enum;
* any other field leads nowhere.

The main result, `outgoing_field_exact`: in the graph of a set, the edges that leave the
vertex of a field lead to the vertices that it leads to and to no others, one edge to each.

The graph before wrapper messages are flattened is meant.  That names are unique
and that no message-typed field names an enum are assumptions about the set.
-/

namespace SchemaGraph

/-- No message-typed field of a set refers to one of its enums. -/
def FileSet.MessagesNotEnums (set : FileSet) : Prop :=
  ∀ f ∈ set.fieldSites, f.decl.HoldsMessage → ∀ e ∈ set.enumSites, ¬ f.decl.RefersTo e.fullName

instance (set : FileSet) : Decidable set.MessagesNotEnums :=
  inferInstanceAs (Decidable (∀ f ∈ set.fieldSites, f.decl.HoldsMessage →
    ∀ e ∈ set.enumSites, ¬ f.decl.RefersTo e.fullName))

/-- A vertex that a field leads to, with the label of the edge there. -/
inductive FieldSite.LeadsTo (set : FileSet) (f : FieldSite) : Element → Edge → Prop where
  | owned {m : MessageSite} {s : Site} {e : Element} {entersMessage : Bool}
      (htype : f.decl.HoldsMessage) (hm : m ∈ set.messageSites)
      (hname : f.decl.RefersTo m.fullName) (hs : s ∈ m.owned) (hkey : e.key = s.key)
      (henters : entersMessage = true ↔ ∃ g, s = .field g ∧ g.decl.HoldsMessage) :
      f.LeadsTo set e ⟨.field, e.pathType, entersMessage⟩
  | message {m : MessageSite} {e : Element} (htype : f.decl.HoldsMessage)
      (hm : m ∈ set.messageSites) (hname : f.decl.RefersTo m.fullName) (hkey : e.key = m.key) :
      f.LeadsTo set e ⟨.typeRef, e.pathType, true⟩
  | enum {s : EnumSite} {e : Element} (htype : f.decl.type = .enum) (hs : s ∈ set.enumSites)
      (hname : f.decl.RefersTo s.fullName) (hkey : e.key = s.key) :
      f.LeadsTo set e ⟨.typeRef, "[type=enum]", false⟩

/-! ## References by look-up -/

/-- What the type of a field refers to, with the labels of the edges there. -/
def FieldSite.targets (set : FileSet) (f : FieldSite) : List (Site × Edge) :=
  if f.decl.type.isMessage then
    match set.message? f.decl.reference with
    | none => []
    | some m =>
      (m.owned.map fun s =>
        (s, ⟨.field, (s.element set.mapEntries).pathType,
          (s.element set.mapEntries).isMessageType⟩)) ++
        [(.message m, ⟨.typeRef, (m.element set.mapEntries).pathType, true⟩)]
  else if f.decl.type = .enum then
    match set.enum? f.decl.reference with
    | none => []
    | some e => [(.enum e, ⟨.typeRef, "[type=enum]", false⟩)]
  else []

/-! ## The path types that end in the enum tag -/

theorem FieldDecl.endsWith_enumTag_of_scalar {f : FieldDecl} (hscalar : f.type.isMessage = false) :
    Text.endsWith (typeTag f.tag) enumTag = decide (f.type = .enum) ∧
      Text.endsWith (typeTag "array" ++ "." ++ typeTag f.tag) enumTag =
        decide (f.type = .enum) := by
  cases htype : f.type with
  | group => exact absurd (htype ▸ hscalar) (by decide)
  | message => exact absurd (htype ▸ hscalar) (by decide)
  | _ =>
      simp only [tag, htype]
      decide

/-- Of the fields that are not message-typed, those typed as an enum have a path
type that ends in the enum tag, whether repeated or not. -/
theorem FieldDecl.endsWith_enumTag {f : FieldDecl} (entries : List String)
    (hscalar : f.type.isMessage = false) :
    Text.endsWith (f.shape entries).1 enumTag = decide (f.type = .enum) := by
  have hmap : f.isMap entries = false := by
    rw [isMap, hscalar, Bool.and_false, Bool.false_and]
  by_cases hlabel : f.label = .repeated
  · have hshape : (f.shape entries).1 = typeTag "array" ++ "." ++ typeTag f.tag := by
      simp [shape, hmap, hlabel]
    rw [hshape]
    exact (endsWith_enumTag_of_scalar hscalar).2
  · have hshape : (f.shape entries).1 = typeTag f.tag := by
      simp [shape, hmap, hlabel]
    rw [hshape]
    exact (endsWith_enumTag_of_scalar hscalar).1

section References

variable {set : FileSet} {f : FieldSite}

/-- The references of a field are the edges to what its type refers to. -/
theorem FieldSite.references_eq (hkinds : set.MessagesNotEnums) (hf : f ∈ set.fieldSites) :
    (Site.field f).references set =
      (f.targets set).map fun t => ⟨f.key, t.1.key, t.2⟩ := by
  rw [Site.references, Site.messageReferences, Site.enumReferences, targets]
  cases hmessage : f.decl.type.isMessage with
  | true =>
      -- The path type may end in the enum tag here, but no enum has the name.
      have henum : set.enum? f.decl.reference = none :=
        FileSet.enum?_eq_none_iff.mpr fun e he hname =>
          hkinds f hf (FieldDecl.holdsMessage_iff.mpr hmessage) e he
            (FieldDecl.refersTo_iff.mpr hname.symm)
      rw [FieldDecl.nativeType_of_isMessage hmessage, henum, Option.map_none, Option.toList_none,
        ite_self, List.append_nil, if_pos rfl, if_pos rfl]
      cases hm : set.message? f.decl.reference with
      | none => rfl
      | some m =>
          show f.messageLinks set.mapEntries m = _
          rw [messageLinks, List.map_append, List.map_map]
          rfl
  | false =>
      have htag : Text.endsWith (f.element set.mapEntries).pathType enumTag =
          decide (f.decl.type = .enum) := FieldDecl.endsWith_enumTag _ hmessage
      simp only [htag, Bool.false_eq_true, if_false, List.nil_append]
      by_cases henum : f.decl.type = .enum
      · have hnamed : f.decl.nativeType = f.decl.reference := by
          simp [FieldDecl.nativeType, henum, FieldType.isNamed]
        rw [hnamed, if_pos (decide_eq_true henum), if_pos henum]
        cases set.enum? f.decl.reference with
        | none => rfl
        | some e => rfl
      · rw [decide_eq_false henum, if_neg Bool.false_ne_true, if_neg henum]
        rfl

/-- What a field refers to is declared by the set. -/
theorem FieldSite.mem_sites_of_mem_targets (h : set.UniqueKeys) {t : Site × Edge}
    (ht : t ∈ f.targets set) : t.1 ∈ set.sites := by
  rw [targets] at ht
  split at ht
  · split at ht
    · exact absurd ht List.not_mem_nil
    · next m hm =>
      have hmem := (h.message?_eq_some_iff.mp hm).1
      rcases List.mem_append.mp ht with ht | ht
      · obtain ⟨s, hs, rfl⟩ := List.mem_map.mp ht
        exact mem_sites_of_mem_owned hmem hs
      · rw [List.mem_singleton.mp ht]
        exact FileSet.message_mem_sites.mpr hmem
  · split at ht
    · split at ht
      · exact absurd ht List.not_mem_nil
      · next e he =>
        rw [List.mem_singleton.mp ht]
        exact FileSet.enum_mem_sites.mpr (h.enum?_eq_some_iff.mp he).1
    · exact absurd ht List.not_mem_nil

/-- A field refers to each declaration at most once. -/
theorem FieldSite.nodup_targets (h : set.UniqueKeys) (f : FieldSite) :
    ((f.targets set).map fun t => t.1.key).Nodup := by
  rw [targets]
  split
  · split
    · exact List.nodup_nil
    · next m hm =>
      have howned := h.owned (h.message?_eq_some_iff.mp hm).1
      rw [List.map_append, List.map_map]
      exact (List.perm_append_singleton _ _).nodup_iff.mpr howned
  · split
    · split
      · exact List.nodup_nil
      · exact List.nodup_singleton _
    · exact List.nodup_nil

theorem FieldSite.leadsTo_of_mem_targets (h : set.UniqueKeys) {t : Site × Edge}
    (ht : t ∈ f.targets set) : f.LeadsTo set (t.1.element set.mapEntries) t.2 := by
  rw [targets] at ht
  split at ht
  · next htype =>
    have htype := FieldDecl.holdsMessage_iff.mpr htype
    split at ht
    · exact absurd ht List.not_mem_nil
    · next m hfound =>
      obtain ⟨hm, hname⟩ := h.message?_eq_some_iff.mp hfound
      have hname := FieldDecl.refersTo_iff.mpr hname.symm
      rcases List.mem_append.mp ht with ht | ht
      · obtain ⟨s, hs, rfl⟩ := List.mem_map.mp ht
        refine .owned htype hm hname hs (s.key_element _) ?_
        simp only [isMessageType_element, FieldDecl.holdsMessage_iff]
      · obtain rfl := List.mem_singleton.mp ht
        exact .message htype hm hname rfl
  · split at ht
    · next henum =>
      split at ht
      · exact absurd ht List.not_mem_nil
      · next e hfound =>
        obtain ⟨he, hname⟩ := h.enum?_eq_some_iff.mp hfound
        obtain rfl := List.mem_singleton.mp ht
        exact .enum henum he (FieldDecl.refersTo_iff.mpr hname.symm) (e.key_element _)
    · exact absurd ht List.not_mem_nil

theorem FieldSite.exists_target_of_leadsTo (h : set.UniqueKeys) {e : Element} {edge : Edge}
    (hleads : f.LeadsTo set e edge) (helement : e ∈ set.elements) :
    ∃ s, e = s.element set.mapEntries ∧ (s, edge) ∈ f.targets set := by
  obtain ⟨s, hs, rfl⟩ := List.mem_map.mp helement
  have hsame (s' : Site) (hs' : s' ∈ set.sites) (hkey : (s.element set.mapEntries).key = s'.key) :
      s = s' :=
    List.inj_on_of_nodup_map h hs hs' ((s.key_element _).symm.trans hkey)
  refine ⟨s, rfl, ?_⟩
  rw [targets]
  cases hleads with
  | owned htype hm hname hs' hkey henters =>
      obtain rfl := hsame _ (mem_sites_of_mem_owned hm hs') hkey
      rw [if_pos (FieldDecl.holdsMessage_iff.mp htype),
        h.message?_eq_some_iff.mpr ⟨hm, (FieldDecl.refersTo_iff.mp hname).symm⟩]
      simp only [FieldDecl.holdsMessage_iff] at henters
      have hlabel : _ = (s.element set.mapEntries).isMessageType :=
        Bool.eq_iff_iff.mpr (henters.trans (isMessageType_element s).symm)
      refine List.mem_append_left _ (List.mem_map.mpr ⟨s, hs', ?_⟩)
      rw [hlabel]
  | @message m _ htype hm hname hkey =>
      obtain rfl := hsame (.message m) (FileSet.message_mem_sites.mpr hm) hkey
      rw [if_pos (FieldDecl.holdsMessage_iff.mp htype),
        h.message?_eq_some_iff.mpr ⟨hm, (FieldDecl.refersTo_iff.mp hname).symm⟩]
      exact List.mem_append_right _ (List.mem_singleton_self _)
  | @enum e _ htype he hname hkey =>
      obtain rfl := hsame (.enum e) (FileSet.enum_mem_sites.mpr he) hkey
      have hscalar : ¬ f.decl.type.isMessage = true := by rw [htype]; decide
      rw [if_neg hscalar, if_pos htype,
        h.enum?_eq_some_iff.mpr ⟨he, (FieldDecl.refersTo_iff.mp hname).symm⟩]
      exact List.mem_singleton_self _

/-! ## The edges of a field -/

/-- Where keys differ, a key chooses the one that has it. -/
theorem filter_key_eq_singleton {α β : Type} [BEq β] [LawfulBEq β] {as : List α} {keyOf : α → β}
    (hkeys : (as.map keyOf).Nodup) {a : α} (ha : a ∈ as) :
    as.filter (fun b => keyOf b == keyOf a) = [a] := by
  obtain ⟨before, after, rfl⟩ := List.append_of_mem ha
  rw [List.map_append, List.map_cons] at hkeys
  have hnot := (List.nodup_cons.mp (List.perm_middle.nodup_iff.mp hkeys)).1
  rw [List.mem_append, not_or] at hnot
  have hother {bs : List α} (hbs : keyOf a ∉ bs.map keyOf) :
      bs.filter (fun b => keyOf b == keyOf a) = [] := by
    refine List.filter_eq_nil_iff.mpr fun b hb heq => hbs ?_
    rw [← beq_iff_eq.mp heq]
    exact List.mem_map_of_mem hb
  have hself : (a :: after).filter (fun b => keyOf b == keyOf a) = [a] := by
    rw [List.filter_cons, if_pos (beq_self_eq_true _), hother hnot.2]
  rw [List.filter_append, hself, hother hnot.1, List.nil_append]

/-- The edges of a set that leave a field are its references. -/
theorem filter_links_from_field (h : set.UniqueKeys) (hf : f ∈ set.fieldSites) :
    set.links.filter (fun n => n.source == f.key) = (Site.field f).references set := by
  have howners : (set.sites.filterMap (Site.ownerLink? set.mapEntries)).filter
      (fun n => n.source == f.key) = [] := by
    refine List.filter_eq_nil_iff.mpr fun n hn heq => ?_
    obtain ⟨s, -, hs⟩ := List.mem_filterMap.mp hn
    obtain ⟨owner, howner, rfl⟩ := Option.map_eq_some_iff.mp hs
    have hsource : owner.key = f.key := beq_iff_eq.mp heq
    have hkind := Site.kind_owner howner
    rw [hsource] at hkind
    rcases hkind with hkind | hkind <;> cases hkind
  have hreferences (s : Site) : (s.references set).filter (fun n => n.source == f.key) =
      if s.key = f.key then s.references set else [] := by
    split
    · next heq =>
      refine List.filter_eq_self.mpr fun n hn => ?_
      rw [(Site.source_of_mem_references hn).1, heq, beq_self_eq_true]
    · next hne =>
      refine List.filter_eq_nil_iff.mpr fun n hn => ?_
      rw [(Site.source_of_mem_references hn).1, beq_iff_eq]
      exact hne
  have hfield : set.sites.filter (fun s => s.key == f.key) = [.field f] :=
    filter_key_eq_singleton h (FileSet.field_mem_sites.mpr hf)
  calc set.links.filter (fun n => n.source == f.key)
      = (set.sites.flatMap (Site.references set)).filter (fun n => n.source == f.key) := by
        rw [FileSet.links, List.filter_append, howners, List.nil_append]
    _ = set.sites.flatMap fun s => if s.key = f.key then s.references set else [] := by
        rw [List.filter_flatMap]
        exact List.flatMap_congr fun s _ => hreferences s
    _ = (set.sites.filter fun s => s.key == f.key).flatMap fun s =>
          if s.key = f.key then s.references set else [] := by
        refine (flatMap_filter_of_nil fun s _ hs => ?_).symm
        exact if_neg (by simpa using hs)
    _ = (Site.field f).references set := by
        rw [hfield, List.flatMap_singleton]
        exact if_pos rfl

/-- The edges that leave the vertex of a field, by look-up. -/
theorem outgoing_perm_targets (h : set.UniqueKeys) (hkinds : set.MessagesNotEnums) {id : VertexId}
    (hf : f ∈ set.fieldSites)
    (hmem : (id, f.element set.mapEntries) ∈ (Draft.ofSet set).store.elements) :
    (((Draft.ofSet set).store.outgoing id).map fun l =>
        ((Draft.ofSet set).store.element? l.target, l.edge)).Perm
      ((f.targets set).map fun t => (some (t.1.element set.mapEntries), t.2)) := by
  have hg := holds_ofSet h
  have hkey : (Draft.ofSet set).store.keyOf? id = some f.key := hg.valid.keyOf?_of_mem hmem
  have hlinks : set.links.filter (fun n => n.source == f.key) =
      ((f.targets set).map fun t => (t.1.element set.mapEntries, t.2)).map fun t =>
        ⟨f.key, t.1.key, t.2⟩ := by
    rw [filter_links_from_field h hf, f.references_eq hkinds hf, List.map_map]
    refine List.map_congr_left fun t _ => ?_
    rw [Function.comp_apply, Site.key_element]
  have hperm := hg.map_outgoing hkey (List.Perm.of_eq hlinks) fun t ht => by
    obtain ⟨t, htarget, rfl⟩ := List.mem_map.mp ht
    exact List.mem_map_of_mem (FieldSite.mem_sites_of_mem_targets h htarget)
  rw [List.map_map] at hperm
  exact hperm

/-- In the graph of a set, the edges that leave a field lead to the vertices that it leads
to, and there is one edge to each. -/
theorem outgoing_field_exact (h : set.UniqueNames) (hkinds : set.MessagesNotEnums)
    {id : VertexId} {e : Element} (hmem : (id, e) ∈ (Draft.ofSet set).store.elements)
    (hfield : e.kind = .field) :
    ∃ f ∈ set.fieldSites, e.key = f.key ∧
      (∀ target edge,
        (∃ l ∈ (Draft.ofSet set).store.outgoing id, l.target = target ∧ l.edge = edge) ↔
          ∃ t, (target, t) ∈ (Draft.ofSet set).store.elements ∧ f.LeadsTo set t edge) ∧
      (((Draft.ofSet set).store.outgoing id).map Link.target).Nodup := by
  have hg := holds_ofSet h.uniqueKeys
  obtain ⟨s, hs, rfl⟩ := List.mem_map.mp (hg.mem hmem)
  obtain ⟨f, rfl⟩ := Site.exists_field
    ((congrArg ElementKey.kind (s.key_element set.mapEntries)).symm.trans hfield)
  have hf : f ∈ set.fieldSites := FileSet.field_mem_sites.mp hs
  have hperm := outgoing_perm_targets h.uniqueKeys hkinds hf hmem
  refine ⟨f, hf, rfl, fun target edge => ⟨?_, ?_⟩, ?_⟩
  · rintro ⟨l, hl, rfl, rfl⟩
    obtain ⟨t, ht, heq⟩ := List.mem_map.mp (hperm.mem_iff.mp (List.mem_map_of_mem hl))
    obtain ⟨htarget, hedge⟩ := Prod.mk.inj heq
    refine ⟨_, hg.valid.element?_eq_some_iff.mp htarget.symm, ?_⟩
    rw [← hedge]
    exact FieldSite.leadsTo_of_mem_targets h.uniqueKeys ht
  · rintro ⟨t, htarget, hleads⟩
    obtain ⟨s, rfl, hs⟩ :=
      FieldSite.exists_target_of_leadsTo h.uniqueKeys hleads (hg.mem htarget)
    obtain ⟨l, hl, heq⟩ := List.mem_map.mp (hperm.mem_iff.mpr (List.mem_map_of_mem hs))
    obtain ⟨helement, hedge⟩ := Prod.mk.inj heq
    have htarget' := hg.valid.element?_eq_some_iff.mp helement
    exact ⟨l, hl, (hg.valid.eq_of_key htarget' htarget rfl).1, hedge⟩
  · -- The vertices differ because their identities do.
    have hkeys : ((((Draft.ofSet set).store.outgoing id).map Link.target).map fun target =>
        ((Draft.ofSet set).store.element? target).map Element.key).Nodup := by
      have hmapped := hperm.map fun t => t.1.map Element.key
      rw [List.map_map, List.map_map] at hmapped
      rw [List.map_map]
      refine hmapped.nodup_iff.mpr ?_
      have hsome := (f.nodup_targets h.uniqueKeys).map fun _ _ => Option.some.inj
      rw [List.map_map] at hsome
      refine (List.map_congr_left fun t _ => ?_) ▸ hsome
      exact congrArg some (t.1.key_element set.mapEntries).symm
    exact List.Nodup.of_map _ hkeys

end References

/-- A schema in which fields refer to a later file, to their own message, to a nested enum
and to nothing in the set. -/
def networkSet : FileSet where
  files :=
    [{ name := "node.proto"
       package := "net"
       messages :=
         [{ name := "Node"
            fields :=
              [{ name := "up", number := 1, type := .message, typeName := some ".net.Link" },
               { name := "kind", number := 2, type := .enum, typeName := some "net.Node.Kind" },
               { name := "next", number := 3, type := .group, typeName := some ".net.Node"
                 oneofIndex := some 0 },
               { name := "lost", number := 4, type := .message, typeName := some ".net.Lost" }]
            nested := []
            enums := [{ name := "Kind", values := [⟨"ROOT", 0⟩] }]
            extensions := []
            oneofs := ["step"]
            isMapEntry := false }] },
     { name := "link.proto"
       package := "net"
       messages :=
         [{ name := "Link"
            fields :=
              [{ name := "name", number := 1, type := .string },
               { name := "port", number := 2, type := .int32, oneofIndex := some 0 }]
            nested := []
            enums := []
            extensions := []
            oneofs := ["end"]
            isMapEntry := false }] }]

/-- The edges that leave each field of the network.  The port is a member of a group, and no
field leads to it. -/
theorem outgoing_field_exact_networkSet :
    networkSet.UniqueNames ∧ networkSet.MessagesNotEnums ∧
      (∃ entry ∈ (Draft.ofSet networkSet).store.elements,
        entry.2.kind = .field ∧ entry.2.fullName = "net.Node.up" ∧
          ∃ f ∈ networkSet.fieldSites, entry.2.key = f.key ∧
            (∀ target edge,
              (∃ l ∈ (Draft.ofSet networkSet).store.outgoing entry.1,
                l.target = target ∧ l.edge = edge) ↔
                ∃ t, (target, t) ∈ (Draft.ofSet networkSet).store.elements ∧
                  f.LeadsTo networkSet t edge) ∧
            (((Draft.ofSet networkSet).store.outgoing entry.1).map Link.target).Nodup) ∧
      (((Draft.ofSet networkSet).store.elements.filter fun entry =>
          entry.2.kind == .field).map fun entry => (entry.2.fullName,
            ((Draft.ofSet networkSet).store.outgoing entry.1).map fun l =>
              ((Draft.ofSet networkSet).store.keyOf? l.target, l.edge))) =
        [("net.Node.up",
            [(some ⟨.message, "net.Link"⟩, ⟨.typeRef, "[type=net_Link]", true⟩),
             (some ⟨.oneOf, "net.Link.end"⟩, ⟨.field, "[type=union]", false⟩),
             (some ⟨.field, "net.Link.name"⟩, ⟨.field, "[type=string]", false⟩)]),
         ("net.Node.kind",
            [(some ⟨.enum, "net.Node.Kind"⟩, ⟨.typeRef, "[type=enum]", false⟩)]),
         ("net.Node.next",
            [(some ⟨.message, "net.Node"⟩, ⟨.typeRef, "[type=net_Node]", true⟩),
             (some ⟨.field, "net.Node.lost"⟩, ⟨.field, "[type=net_Lost]", true⟩),
             (some ⟨.oneOf, "net.Node.step"⟩, ⟨.field, "[type=union]", false⟩),
             (some ⟨.field, "net.Node.kind"⟩, ⟨.field, "[type=enum]", false⟩),
             (some ⟨.field, "net.Node.up"⟩, ⟨.field, "[type=net_Link]", true⟩)]),
         ("net.Node.lost", []), ("net.Link.name", []), ("net.Link.port", [])] := by
  have hnames : networkSet.UniqueNames := by decide +kernel
  have hkinds : networkSet.MessagesNotEnums := by decide +kernel
  obtain ⟨entry, hmem, hkind, hname⟩ :
      ∃ entry ∈ (Draft.ofSet networkSet).store.elements,
        entry.2.kind = .field ∧ entry.2.fullName = "net.Node.up" := by decide +kernel
  exact ⟨hnames, hkinds,
    ⟨entry, hmem, hkind, hname, outgoing_field_exact hnames hkinds hmem hkind⟩, by decide +kernel⟩

end SchemaGraph

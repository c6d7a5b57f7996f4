import Mathlib.Data.List.TakeWhile
import SchemaGraph.Proofs.Schema.Traced

/-!
# The order in which vertices are numbered

Nothing is removed while a set is taken up, so numbers are given out in ascending
order (`Store.IsNumbered`), and every step puts its new vertices last
(`Store.Grows`).  The fields of a message are therefore numbered in the order in
which they are declared, whatever lies between them and in whichever file the message
stands (`FileSet.UniqueKeys.fields_sublist`).
-/

namespace SchemaGraph

/-- The identities of a field and of its group. -/
def Member.keys (m : Member) : List ElementKey := m.field.key :: (m.group.map Element.key).toList

/-- The identities that a declaration may add, in order. -/
def Declaration.keys : Declaration → List ElementKey
  | .element e => [e.key]
  | .members _ taken => taken.flatMap Member.keys

/-- The identities of the fields among them, if the declaration may add fields. -/
def Declaration.fieldKeys? : Declaration → Option (List ElementKey)
  | .element e => if e.kind = .field then some [e.key] else none
  | .members _ taken => some ((taken.flatMap Member.keys).filter fun key => key.kind == .field)

namespace Store

/-- Numbers were given out in ascending order, and none was given back. -/
structure IsNumbered (g : Store) : Prop where
  unused : g.vertexIds.freed = []
  below : ∀ id ∈ g.ids, id < g.vertexIds.fresh
  ascending : g.ids.Pairwise (· < ·)

/-- The second store has some of these identities more, in this order, and last. -/
def Grows (g g' : Store) (asked : List ElementKey) : Prop :=
  g.IsNumbered → g'.IsNumbered ∧ ∃ added, added.Sublist asked ∧ g'.keys = g.keys ++ added

variable {g g' g'' : Store} {asked asked' : List ElementKey} {e : Element}

theorem isNumbered_empty : ({} : Store).IsNumbered where
  unused := rfl
  below := by simp [ids]
  ascending := List.Pairwise.nil

theorem Grows.refl (g : Store) (asked : List ElementKey) : g.Grows g asked :=
  fun h => ⟨h, [], List.nil_sublist _, (List.append_nil _).symm⟩

theorem Grows.trans (h : g.Grows g' asked) (h' : g'.Grows g'' asked') :
    g.Grows g'' (asked ++ asked') := by
  intro hnumbered
  obtain ⟨hnumbered', added, hadded, hkeys⟩ := h hnumbered
  obtain ⟨hnumbered'', added', hadded', hkeys'⟩ := h' hnumbered'
  exact ⟨hnumbered'', added ++ added', hadded.append hadded', by
    rw [hkeys', hkeys, List.append_assoc]⟩

/-- A step that changes neither numbers nor identities. -/
theorem Grows.of_same (hpool : g'.vertexIds = g.vertexIds) (hids : g'.ids = g.ids)
    (hkeys : g'.keys = g.keys) : g.Grows g' [] := by
  intro h
  refine ⟨⟨?_, ?_, ?_⟩, [], List.Sublist.refl _, by rw [hkeys, List.append_nil]⟩
  · rw [hpool]
    exact h.unused
  · rw [hids, hpool]
    exact h.below
  · rw [hids]
    exact h.ascending

theorem grows_addElement (g : Store) (e : Element) : g.Grows (g.addElement e).2 [e.key] := by
  cases hfind : g.find? e.key with
  | some id =>
      rw [addElement_of_find? hfind]
      exact Grows.refl g _
  | none =>
      intro h
      have hnext : g.vertexIds.next = g.vertexIds.fresh := by rw [IdPool.next, h.unused]; rfl
      have htake : g.vertexIds.take = { g.vertexIds with fresh := g.vertexIds.fresh + 1 } := by
        simp [IdPool.take, h.unused]
      -- All numbers in use are smaller, so the new vertex comes last.
      have hplace : place g.vertexIds.next e g.elements =
          g.elements ++ [(g.vertexIds.fresh, e)] := by
        rw [hnext]
        have hbefore : ∀ entry ∈ g.elements, ¬ g.vertexIds.fresh ≤ entry.1 := fun entry hentry =>
          Nat.not_le.mpr (h.below entry.1 (List.mem_map_of_mem hentry))
        rw [place, Ordered.insert_eq_orderedInsert, List.orderedInsert_eq_take_drop,
          List.takeWhile_eq_self_iff.mpr (by simpa using hbefore),
          List.dropWhile_eq_nil_iff.mpr (by simpa using hbefore)]
      rw [addElement_of_find?_none hfind, hplace, htake]
      have hids : (g.elements ++ [(g.vertexIds.fresh, e)]).map Prod.fst =
          g.ids ++ [g.vertexIds.fresh] := List.map_append
      refine ⟨⟨h.unused, fun id hid => ?_, ?_⟩, [e.key], List.Sublist.refl _, List.map_append⟩
      · rw [ids, hids] at hid
        rcases List.mem_append.mp hid with hid | hid
        · exact Nat.lt_succ_of_lt (h.below id hid)
        · rw [List.mem_singleton.mp hid]
          exact Nat.lt_succ_self _
      · rw [ids, hids]
        refine List.pairwise_append.mpr ⟨h.ascending, List.pairwise_singleton _ _, ?_⟩
        intro id hid id' hid'
        rw [List.mem_singleton.mp hid']
        exact h.below id hid

theorem grows_addLink (g : Store) (source target : VertexId) (edge : Edge) :
    g.Grows (g.addLink source target edge).2 [] :=
  Grows.of_same rfl rfl rfl

theorem grows_update (g : Store) (id : VertexId) {change : Element → Element}
    (hchange : ∀ e, (change e).key = e.key) : g.Grows (g.update id change) [] :=
  Grows.of_same rfl (ids_update g id change) (keys_update g id hchange)

theorem grows_enterGroup (g : Store) (owner : VertexId) (group : Element) :
    g.Grows (Draft.enterGroup g owner group).2 [group.key] := by
  rw [Draft.enterGroup]
  split
  · exact Grows.refl g _
  · exact (grows_addElement g group).trans (grows_addLink _ _ _ _)

theorem grows_addMember (owner : VertexId) (state : Store × List VertexId) (m : Member) :
    state.1.Grows (Draft.addMember owner state m).1 m.keys := by
  have hfield := grows_addElement state.1 m.field
  rw [Draft.addMember, Member.keys]
  cases m.group with
  | none => exact hfield.trans (grows_addLink _ _ _ _)
  | some group =>
      have hgroup := grows_enterGroup (state.1.addElement m.field).2 owner group
      exact hfield.trans (hgroup.trans
        ((grows_update _ _ fun e => e.key_addMember m.name).trans (grows_addLink _ _ _ _)))

theorem grows_addMembers (owner : VertexId) (members : List Member)
    (state : Store × List VertexId) :
    state.1.Grows (members.foldl (Draft.addMember owner) state).1 (members.flatMap Member.keys) := by
  induction members generalizing state with
  | nil => exact Grows.refl _ _
  | cons m rest ih =>
      rw [List.flatMap_cons]
      exact (grows_addMember owner state m).trans (ih _)

theorem grows_declare (d : Draft) (declaration : Declaration) :
    d.store.Grows (d.declare declaration).store declaration.keys := by
  cases declaration with
  | element e => exact grows_addElement d.store e
  | members message members =>
      rw [Draft.declare]
      split
      · exact Grows.refl _ _
      · next owner _ => exact grows_addMembers owner members (d.store, [])

theorem grows_foldl_declare (declarations : List Declaration) (d : Draft) :
    d.store.Grows (declarations.foldl Draft.declare d).store
      (declarations.flatMap Declaration.keys) := by
  induction declarations generalizing d with
  | nil => exact Grows.refl _ _
  | cons declaration rest ih =>
      rw [List.flatMap_cons]
      exact (grows_declare d declaration).trans (ih _)

end Store

namespace Draft

/-- Resolving references changes no vertex. -/
theorem sameVertices_resolve (d : Draft) (g : Store) (field : VertexId) :
    g.SameVertices (d.resolve g field) := by
  have hsteps (steps : List (VertexId × Edge)) : g.SameVertices
      (steps.foldl (fun g step => (g.addLink field step.1 step.2).2) g) :=
    List.foldlRecOn steps _ (Store.SameVertices.refl g) fun g' hsame step _ =>
      hsame.trans (Store.sameVertices_addLink g' field step.1 step.2)
  rw [resolve]
  split
  · exact Store.SameVertices.refl g
  · split
    · exact Store.SameVertices.refl g
    · dsimp only
      split
      · exact hsteps _
      · exact (hsteps _).trans (Store.sameVertices_addLink _ _ _ _)

theorem sameVertices_linkEnum (g : Store) (entry : VertexId × Element) :
    g.SameVertices (linkEnum g entry) := by
  rw [linkEnum]
  split
  · exact Store.SameVertices.refl g
  · exact Store.sameVertices_addLink _ _ _ _

theorem sameVertices_ofSet (set : FileSet) :
    (ofDeclarations set.declarations).store.SameVertices (ofSet set).store := by
  rw [ofSet, resolveAll]
  refine List.foldlRecOn _ _ (List.foldlRecOn _ _ (Store.SameVertices.refl _) ?_) ?_
  · exact fun g hsame field _ => hsame.trans (sameVertices_resolve _ g field)
  · exact fun g hsame entry _ => hsame.trans (sameVertices_linkEnum g entry)

end Draft

/-- Of two elements that come one after the other the first has the smaller number. -/
theorem Store.Valid.lt_of_sublist {g : Store} (h : g.Valid) (hascending : g.ids.Pairwise (· < ·))
    {id id' : VertexId} {e e' : Element} (he : (id, e) ∈ g.elements) (he' : (id', e') ∈ g.elements)
    (hsub : [e.key, e'.key].Sublist g.keys) : id < id' := by
  obtain ⟨entries, hentries, hkeys⟩ := List.sublist_map_iff.mp hsub
  obtain ⟨⟨i, a⟩, rest, rfl, hkey, hrest⟩ := List.map_eq_cons_iff.mp hkeys.symm
  obtain ⟨⟨i', a'⟩, rest', rfl, hkey', hnil⟩ := List.map_eq_cons_iff.mp hrest
  obtain rfl := List.map_eq_nil_iff.mp hnil
  have ha : (i, a) ∈ g.elements := hentries.subset List.mem_cons_self
  have ha' : (i', a') ∈ g.elements := hentries.subset (List.mem_cons_of_mem _ List.mem_cons_self)
  obtain ⟨rfl, -⟩ := h.eq_of_key he ha hkey.symm
  obtain ⟨rfl, -⟩ := h.eq_of_key he' ha' hkey'.symm
  have hpair : [id, id'].Pairwise (· < ·) := hascending.sublist (hentries.map Prod.fst)
  simpa using hpair

/-! ## The fields of a set -/

section Fields

variable {entries : List String} {set : FileSet} {m : MessageSite}

theorem flatten_fieldKeys (declarations : List Declaration) :
    (declarations.filterMap Declaration.fieldKeys?).flatten =
      (declarations.flatMap Declaration.keys).filter fun key => key.kind == .field := by
  induction declarations with
  | nil => rfl
  | cons declaration rest ih =>
      rw [List.flatMap_cons, List.filter_append, ← ih]
      cases declaration with
      | members message taken => rfl
      | element e =>
          rw [Declaration.keys, List.filterMap_cons, Declaration.fieldKeys?]
          by_cases hkind : e.kind = .field
          · have hkey : [e.key].filter (fun key => key.kind == .field) = [e.key] :=
              List.filter_cons_of_pos (beq_iff_eq.mpr hkind)
            rw [if_pos hkind, hkey]
            rfl
          · have hkey : [e.key].filter (fun key => key.kind == .field) = [] :=
              List.filter_cons_of_neg (mt beq_iff_eq.mp hkind)
            rw [if_neg hkind, hkey]
            rfl

theorem fieldKeys_members (m : MessageSite) :
    (Declaration.members m.fullName (m.decl.members ⟨m.file, entries⟩ m.fullName m.path)).fieldKeys? =
      some (m.fields.map FieldSite.key) := by
  have hone (f : FieldSite) :
      ((f.member entries).keys.filter fun key => key.kind == .field) = [f.key] := by
    rw [Member.keys, f.field_member, f.group_member]
    cases f.group? <;> rfl
  rw [MessageSite.members_eq, Declaration.fieldKeys?, List.flatMap_map, List.filter_flatMap]
  simp only [hone]
  rw [← List.map_eq_flatMap]

/-- Messages and enums are no fields. -/
theorem fieldKeys_elements {sites : List Site} (howner : ∀ s ∈ sites, s.owner? = none) :
    (sites.map fun s => Declaration.element (s.element entries)).filterMap
      Declaration.fieldKeys? = [] := by
  rw [List.filterMap_map, List.filterMap_eq_nil_iff]
  intro s hs
  cases s with
  | message m => rfl
  | enum e => rfl
  | group g => cases howner _ hs
  | field f =>
      have hnone := howner _ hs
      rw [Site.owner?] at hnone
      split at hnone <;> cases hnone

mutual

/-- The fields that the declarations of a message and of what is inside it add. -/
theorem fieldKeys_declarations (decl : MessageDecl) (file : FileDecl) (outer : List String)
    (path : List Int32) :
    ((decl.declarations ⟨file, entries⟩ (parentName file outer) path).filterMap
      Declaration.fieldKeys?).Perm
        ((decl.sites file outer path).map fun m => m.fields.map FieldSite.key) := by
  match decl with
  | ⟨name, fields, nested, enums, extensions, oneofs, isMapEntry⟩ =>
    have hnested := fieldKeys_nestedDeclarations nested file (outer ++ [name]) path messageNested 0
    have heq := @declarations_eq entries
      ⟨file, outer, path, ⟨name, fields, nested, enums, extensions, oneofs, isMapEntry⟩⟩
    dsimp only at heq
    rw [heq, List.filterMap_append, List.filterMap_append, List.filterMap_append,
      fieldKeys_elements (by simp [Site.owner?]), MessageDecl.sites, List.map_cons]
    rw [List.filterMap_cons_none rfl, List.filterMap_nil, List.nil_append, List.nil_append,
      List.filterMap_cons_some (fieldKeys_members _), List.filterMap_nil]
    exact (List.perm_append_singleton _ _).trans (hnested.cons _)

/-- The fields that the declarations of several messages add. -/
theorem fieldKeys_nestedDeclarations (decls : List MessageDecl) (file : FileDecl)
    (outer : List String) (path : List Int32) (list : Int32) (position : Nat) :
    ((nestedDeclarations ⟨file, entries⟩ (parentName file outer) path list position
      decls).filterMap Declaration.fieldKeys?).Perm
        ((nestedSites file outer path list position decls).map
          fun m => m.fields.map FieldSite.key) := by
  match decls with
  | [] => exact List.Perm.refl _
  | decl :: rest =>
    rw [nestedDeclarations, nestedSites, List.filterMap_append, List.map_append]
    exact (fieldKeys_declarations decl file outer _).append
      (fieldKeys_nestedDeclarations rest file outer path list (position + 1))

end

/-- The fields that the declarations of a set add, by their messages. -/
theorem fieldKeys_set (set : FileSet) :
    (set.declarations.filterMap Declaration.fieldKeys?).Perm
      (set.messageSites.map fun m => m.fields.map FieldSite.key) := by
  rw [FileSet.declarations, FileSet.messageSites]
  induction set.files with
  | nil => exact List.Perm.refl _
  | cons file rest ih =>
      rw [List.flatMap_cons, List.flatMap_cons, List.filterMap_append, List.map_append]
      refine List.Perm.append ?_ ih
      rw [FileDecl.declarations, FileDecl.enumDeclarations_file, List.filterMap_append,
        fieldKeys_elements (by simp [Site.owner?]), List.nil_append]
      exact fieldKeys_nestedDeclarations file.messages file [] [] fileMessages 0

/-- In the graph of a set numbers ascend in the order of the vertices. -/
theorem ascending_ofSet (set : FileSet) : (Draft.ofSet set).store.ids.Pairwise (· < ·) := by
  have hnumbered := (Store.grows_foldl_declare set.declarations {} Store.isNumbered_empty).1
  rw [Store.ids, (Draft.sameVertices_ofSet set).1]
  exact hnumbered.ascending

/-- Where identities differ, the fields of a message come in the order in which it
lists them. -/
theorem FileSet.UniqueKeys.fields_sublist (h : set.UniqueKeys) (hm : m ∈ set.messageSites) :
    (m.fields.map FieldSite.key).Sublist (Draft.ofSet set).store.keys := by
  obtain ⟨-, added, hadded, hkeys⟩ :=
    Store.grows_foldl_declare set.declarations {} Store.isNumbered_empty
  have hstore : (Draft.ofSet set).store.keys = added := by
    rw [Store.keys, (Draft.sameVertices_ofSet set).1]
    exact hkeys
  have hsub : (added.filter fun key => key.kind == .field).Sublist
      (set.declarations.filterMap Declaration.fieldKeys?).flatten := by
    rw [flatten_fieldKeys]
    exact hadded.filter _
  have hfields : (set.fieldSites.map FieldSite.key).Sublist (set.sites.map Site.key) := by
    have hparts := set.flatMap_messageSites_sublist (fun m => m.fields.map Site.field) fun m =>
      ((List.sublist_append_left _ _).trans (List.sublist_append_right _ _)).cons _
    have hmap : set.fieldSites.map FieldSite.key =
        (set.messageSites.flatMap fun m => m.fields.map Site.field).map Site.key := by
      rw [FileSet.fieldSites, List.map_flatMap, List.map_flatMap]
      simp only [List.map_map]
      rfl
    rw [hmap]
    exact hparts.map Site.key
  have hkeysPerm : added.Perm (set.sites.map Site.key) := by
    rw [← hstore, ← Site.map_key_element set.mapEntries]
    exact (holds_ofSet h).keys_perm
  have hperm : (added.filter fun key => key.kind == .field).Perm
      (set.fieldSites.map FieldSite.key) := by
    refine (List.perm_ext_iff_of_nodup ((hkeysPerm.nodup_iff.mpr h).filter _)
      (h.sublist hfields)).mpr fun key => ?_
    rw [List.mem_filter, hkeysPerm.mem_iff, beq_iff_eq]
    constructor
    · rintro ⟨hkey, hkind⟩
      obtain ⟨s, hs, rfl⟩ := List.mem_map.mp hkey
      obtain ⟨f, rfl⟩ := Site.exists_field hkind
      exact List.mem_map_of_mem (FileSet.field_mem_sites.mp hs)
    · intro hkey
      obtain ⟨f, -, rfl⟩ := List.mem_map.mp hkey
      exact ⟨hfields.subset hkey, rfl⟩
  -- The fields that are there are among those declared, and as many.
  have hall := (fieldKeys_set set).flatten
  have hsites : (set.messageSites.map fun m => m.fields.map FieldSite.key).flatten =
      set.fieldSites.map FieldSite.key := by
    rw [← List.flatMap_def, FileSet.fieldSites, List.map_flatMap]
  rw [hsites] at hall
  have heq := hsub.eq_of_length (hperm.length_eq.trans hall.length_eq.symm)
  have hmem : m.fields.map FieldSite.key ∈ set.declarations.filterMap Declaration.fieldKeys? :=
    (fieldKeys_set set).mem_iff.mpr (List.mem_map_of_mem hm)
  have hwithin := List.sublist_flatten_of_mem hmem
  rw [← heq] at hwithin
  rw [hstore]
  exact hwithin.trans List.filter_sublist

end Fields

end SchemaGraph

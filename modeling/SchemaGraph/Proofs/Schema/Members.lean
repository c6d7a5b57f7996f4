import Mathlib.Data.List.Induction
import SchemaGraph.Graph.Draft
import SchemaGraph.Proofs.Schema.Site
import SchemaGraph.Proofs.Store.Named

/-!
# Taking up the fields of a message

The fields of one message are taken up one after the other, and a group appears
with its first member and grows with each further one.  `Entered` says what the
store holds after some of the fields: these fields, the groups they belong to
with the members met so far, and one edge into each of them.  It is kept by
every further field, outside groups (`Entered.append_of_none`) or in one
(`Entered.append_of_some`), so `entered_addMembers` gives the state after all of
them.
-/

namespace SchemaGraph

namespace MessageSite

variable {m : MessageSite} {f : FieldSite} {g : GroupSite} {fields : List FieldSite}

theorem mem_declaredGroups_iff :
    g ∈ m.declaredGroups ↔ g.message = m ∧ m.decl.oneofs[g.position]? = some g.name := by
  obtain ⟨message, position, name⟩ := g
  simp only [declaredGroups, List.mem_map, List.mem_zipIdx_iff_getElem?, Prod.exists,
    GroupSite.mk.injEq]
  constructor
  · rintro ⟨n, i, hget, rfl, rfl, rfl⟩
    exact ⟨rfl, hget⟩
  · rintro ⟨rfl, hget⟩
    exact ⟨name, position, hget, rfl, rfl, rfl⟩

theorem mem_groupsOf_iff :
    g ∈ m.groupsOf fields ↔
      g ∈ m.declaredGroups ∧ ∃ f ∈ fields, f.decl.isIn g.position := by
  rw [groupsOf, List.mem_filter, List.any_eq_true]

theorem nodup_groupsOf (m : MessageSite) (fields : List FieldSite) : (m.groupsOf fields).Nodup :=
  (List.Nodup.of_map _ m.nodup_positions).filter _

/-- A field outside groups adds no group. -/
theorem groupsOf_append_of_none (hf : f.message = m) (hgroup : f.group? = none) :
    m.groupsOf (fields ++ [f]) = m.groupsOf fields := by
  refine List.filter_congr fun g hg => ?_
  have hout : f.decl.isIn g.position = false :=
    FieldSite.group?_eq_none_iff.mp hgroup g (hf ▸ hg)
  simp [hout]

/-- Of the declared groups a field is in its own one only. -/
theorem isIn_iff_of_group? (hf : f.message = m) (hgroup : f.group? = some g) {g' : GroupSite}
    (hg' : g' ∈ m.declaredGroups) : f.decl.isIn g'.position ↔ g' = g := by
  obtain ⟨hmem, hin⟩ := FieldSite.group?_eq_some_iff.mp hgroup
  constructor
  · exact fun hin' => eq_of_position hg' (hf ▸ hmem) (FieldDecl.position_eq_of_isIn hin' hin)
  · rintro rfl
    exact hin

/-- A field in a group that has members already adds no group. -/
theorem groupsOf_append_of_mem (hf : f.message = m) (hgroup : f.group? = some g)
    (hg : g ∈ m.groupsOf fields) : m.groupsOf (fields ++ [f]) = m.groupsOf fields := by
  refine List.filter_congr fun g' hg' => ?_
  by_cases hin : f.decl.isIn g'.position
  · obtain rfl := (isIn_iff_of_group? hf hgroup hg').mp hin
    have hany := List.any_eq_true.mpr (mem_groupsOf_iff.mp hg).2
    rw [List.any_append, hany, Bool.true_or]
  · simp [hin]

/-- The first member of a group adds it. -/
theorem groupsOf_append_of_notMem (hf : f.message = m) (hgroup : f.group? = some g)
    (hg : g ∉ m.groupsOf fields) :
    (m.groupsOf (fields ++ [f])).Perm (g :: m.groupsOf fields) := by
  have hdeclared : g ∈ m.declaredGroups := hf ▸ (FieldSite.group?_eq_some_iff.mp hgroup).1
  refine (List.perm_ext_iff_of_nodup (m.nodup_groupsOf _)
    (List.nodup_cons.mpr ⟨hg, m.nodup_groupsOf _⟩)).mpr fun g' => ?_
  rw [List.mem_cons, mem_groupsOf_iff, mem_groupsOf_iff]
  constructor
  · rintro ⟨hg', f', hf', hin⟩
    rcases List.mem_append.mp hf' with hf' | hf'
    · exact Or.inr ⟨hg', f', hf', hin⟩
    · obtain rfl := List.mem_singleton.mp hf'
      exact Or.inl ((isIn_iff_of_group? hf hgroup hg').mp hin)
  · rintro (rfl | ⟨hg', f', hf', hin⟩)
    · exact ⟨hdeclared, f, by simp, (isIn_iff_of_group? hf hgroup hdeclared).mpr rfl⟩
    · exact ⟨hg', f', List.mem_append_left _ hf', hin⟩

end MessageSite

namespace GroupSite

variable {m : MessageSite} {f : FieldSite} {g : GroupSite} {fields : List FieldSite}

theorem namesOf_append_of_isIn (hin : f.decl.isIn g.position) :
    g.namesOf (fields ++ [f]) = g.namesOf fields ++ [f.decl.name] := by
  simp [namesOf, List.filter_append, hin]

theorem namesOf_append_of_not (hout : ¬ f.decl.isIn g.position) :
    g.namesOf (fields ++ [f]) = g.namesOf fields := by
  simp [namesOf, List.filter_append, hout]

theorem namesOf_eq_nil (hg : g ∈ m.declaredGroups) (hnot : g ∉ m.groupsOf fields) :
    g.namesOf fields = [] := by
  rw [namesOf, List.map_eq_nil_iff, List.filter_eq_nil_iff]
  exact fun f hf hin => hnot (MessageSite.mem_groupsOf_iff.mpr ⟨hg, f, hf, hin⟩)

end GroupSite

/-! ## The group that a field names -/

/-- A position out of range names no group, on both sides. -/
theorem FieldSite.group?_eq_map (f : FieldSite) :
    f.group? = (f.decl.group? f.message.decl.oneofs).map fun entry =>
      ⟨f.message, entry.1, entry.2⟩ := by
  cases hfound : f.decl.group? f.message.decl.oneofs with
  | none =>
      refine FieldSite.group?_eq_none_iff.mpr fun g hg => ?_
      obtain ⟨-, hget⟩ := MessageSite.mem_declaredGroups_iff.mp hg
      unfold FieldDecl.group? at hfound
      cases hoptional : f.decl.proto3Optional with
      | true => simp [FieldDecl.isIn, hoptional]
      | false =>
          cases hindex : f.decl.oneofIndex with
          | none => simp [FieldDecl.isIn, hindex]
          | some i =>
              by_contra hin
              have hi : i.toInt = g.position := by
                simpa [FieldDecl.isIn, hoptional, hindex] using hin
              have hpos : ¬ i.toInt < 0 := by omega
              have hnat : i.toInt.toNat = g.position := by omega
              simp [hoptional, hindex, hpos, hnat, hget] at hfound
  | some entry =>
      obtain ⟨position, name⟩ := entry
      refine FieldSite.group?_eq_some_iff.mpr ?_
      unfold FieldDecl.group? at hfound
      cases hoptional : f.decl.proto3Optional with
      | true => simp [hoptional] at hfound
      | false =>
          cases hindex : f.decl.oneofIndex with
          | none => simp [hoptional, hindex] at hfound
          | some i =>
              simp only [hoptional, hindex, Bool.false_eq_true, if_false] at hfound
              split at hfound
              · exact absurd hfound (by simp)
              · next hpos =>
                obtain ⟨found, hget, heq⟩ := Option.map_eq_some_iff.mp hfound
                obtain ⟨rfl, rfl⟩ := Prod.mk.inj heq
                refine ⟨MessageSite.mem_declaredGroups_iff.mpr ⟨rfl, hget⟩, ?_⟩
                have hi : i.toInt = (i.toInt.toNat : Int) := by omega
                simp only [FieldDecl.isIn, hoptional, hindex, Bool.not_false, Bool.true_and,
                  Option.any_some, beq_iff_eq]
                exact hi

section Members

variable (entries : List String)

/-- A field as it is taken up. -/
def FieldSite.member (f : FieldSite) : Member :=
  f.decl.member ⟨f.message.file, entries⟩ f.message.fullName f.message.decl.oneofs
    f.message.path f.position

theorem MessageSite.members_eq (m : MessageSite) :
    m.decl.members ⟨m.file, entries⟩ m.fullName m.path =
      m.fields.map (FieldSite.member entries) := by
  rw [MessageDecl.members, MessageSite.fields, List.map_map]
  rfl

theorem FieldSite.field_member (f : FieldSite) : (f.member entries).field = f.element entries := by
  show f.decl.element _ _ _ _ = f.decl.element _ _ _ _
  rw [f.group?_eq_map, Option.map_map]
  rfl

theorem FieldSite.group_member (f : FieldSite) :
    (f.member entries).group = f.group?.map (GroupSite.elementWith entries []) := by
  rw [f.group?_eq_map, Option.map_map]
  rfl

/-- The elements of the groups that some of the fields belong to, with these
fields as members. -/
def MessageSite.groupElements (m : MessageSite) (fields : List FieldSite) : List Element :=
  (m.groupsOf fields).map fun g => g.elementWith entries (g.namesOf fields)

/-- The edge into a field from its group or its message. -/
def FieldSite.ownerLink (f : FieldSite) : PendingLink :=
  ⟨(f.group?.map GroupSite.key).getD f.message.key, f.key, Edge.into (f.element entries)⟩

/-- The edge into a group from its message. -/
def GroupSite.ownerLink (g : GroupSite) : PendingLink :=
  ⟨g.message.key, g.key, Edge.into (g.element entries)⟩

variable {m : MessageSite} {f : FieldSite} {g : GroupSite}

/-- What one more field does to the elements of the groups: its own one gets a
member, or appears with it. -/
theorem MessageSite.groupElements_append (fields : List FieldSite) (hf : f.message = m)
    (hgroup : f.group? = some g) :
    ∃ rest, (m.groupElements entries (fields ++ [f])).Perm
        (g.elementWith entries (g.namesOf fields ++ [f.decl.name]) :: rest) ∧
      (g ∈ m.groupsOf fields → (m.groupElements entries fields).Perm
        (g.elementWith entries (g.namesOf fields) :: rest)) ∧
      (g ∉ m.groupsOf fields → rest = m.groupElements entries fields) := by
  obtain ⟨hdeclared, hin⟩ := FieldSite.group?_eq_some_iff.mp hgroup
  rw [hf] at hdeclared
  have hother (groups : List GroupSite) (hsub : ∀ g' ∈ groups, g' ∈ m.declaredGroups ∧ g' ≠ g) :
      groups.map (fun g => g.elementWith entries (g.namesOf (fields ++ [f]))) =
        groups.map fun g => g.elementWith entries (g.namesOf fields) := by
    refine List.map_congr_left fun g' hg' => ?_
    have hout : ¬ f.decl.isIn g'.position := fun hin' =>
      (hsub g' hg').2 ((isIn_iff_of_group? hf hgroup (hsub g' hg').1).mp hin')
    rw [GroupSite.namesOf_append_of_not hout]
  by_cases hg : g ∈ m.groupsOf fields
  · obtain ⟨before, after, hsplit⟩ := List.append_of_mem hg
    have hnodup := m.nodup_groupsOf fields
    rw [hsplit] at hnodup
    have hrest : ∀ g' ∈ before ++ after, g' ∈ m.declaredGroups ∧ g' ≠ g := by
      intro g' hg'
      have hmem : g' ∈ m.groupsOf fields := by
        rw [hsplit]
        exact (List.perm_middle (a := g)).mem_iff.mpr (List.mem_cons_of_mem _ hg')
      have hcons := List.perm_middle.nodup_iff.mp hnodup
      exact ⟨(mem_groupsOf_iff.mp hmem).1,
        fun heq => (List.nodup_cons.mp hcons).1 (heq ▸ hg')⟩
    refine ⟨(before ++ after).map fun g => g.elementWith entries (g.namesOf fields), ?_,
      fun _ => ?_, fun hnot => absurd hg hnot⟩
    · rw [groupElements, groupsOf_append_of_mem hf hgroup hg, hsplit, ← hother _ hrest]
      refine (List.perm_middle.map _).trans ?_
      rw [List.map_cons, GroupSite.namesOf_append_of_isIn hin]
    · rw [groupElements, hsplit]
      exact List.perm_middle.map _
  · refine ⟨m.groupElements entries fields, ?_, fun hmem => absurd hmem hg, fun _ => rfl⟩
    have hrest : ∀ g' ∈ m.groupsOf fields, g' ∈ m.declaredGroups ∧ g' ≠ g := fun g' hg' =>
      ⟨(mem_groupsOf_iff.mp hg').1, fun heq => hg (heq ▸ hg')⟩
    refine ((groupsOf_append_of_notMem hf hgroup hg).map _).trans ?_
    rw [List.map_cons, hother _ hrest, GroupSite.namesOf_append_of_isIn hin]
    exact List.Perm.refl _

/-! ## One field after the other -/

variable {entries} {fields : List FieldSite}

theorem map_key_groupElements (m : MessageSite) (fields : List FieldSite) :
    (m.groupElements entries fields).map Element.key = (m.groupsOf fields).map GroupSite.key := by
  rw [MessageSite.groupElements, List.map_map]
  rfl

/-- A field outside groups does nothing to the elements of the groups. -/
theorem MessageSite.groupElements_append_of_none (hf : f.message = m) (hgroup : f.group? = none) :
    m.groupElements entries (fields ++ [f]) = m.groupElements entries fields := by
  rw [groupElements, groupsOf_append_of_none hf hgroup]
  refine List.map_congr_left fun g hg => ?_
  have hout := FieldSite.group?_eq_none_iff.mp hgroup g (hf ▸ (mem_groupsOf_iff.mp hg).1)
  rw [GroupSite.namesOf_append_of_not (by simp [hout])]

theorem cons_perm_append_middle {α : Type} (a : α) (as bs cs : List α) :
    (a :: (as ++ bs ++ cs)).Perm (as ++ (bs ++ [a]) ++ cs) := by
  rw [← List.append_assoc as, List.append_assoc (as ++ bs)]
  exact List.perm_middle.symm

variable {g₀ store : Store} {es : List Element} {ls : List PendingLink} {owner : VertexId}
variable {G : GroupSite}

theorem enterGroup_of_find? {group : Element} {id : VertexId}
    (hfind : store.find? group.key = some id) :
    Draft.enterGroup store owner group = (id, store) := by
  simp [Draft.enterGroup, hfind]

theorem enterGroup_of_find?_none {group : Element} (hfind : store.find? group.key = none) :
    Draft.enterGroup store owner group =
      ((store.addElement group).1, ((store.addElement group).2.addLink owner
        (store.addElement group).1 ⟨.field, group.pathType, false⟩).2) := by
  simp [Draft.enterGroup, hfind]

/-- Entering the group of a field: the group is there with the members met
before, and the edge into it from the message. -/
theorem enterGroup_holds
    (h : store.Holds (es ++ m.groupElements entries fields)
      (ls ++ (m.groupsOf fields).map (GroupSite.ownerLink entries)))
    (howner : store.keyOf? owner = some m.key) (hf : f.message = m) (hgroup : f.group? = some G)
    (hnew : G ∉ m.groupsOf fields →
      G.key ∉ (es ++ m.groupElements entries fields).map Element.key) :
    ∃ rest, (m.groupElements entries (fields ++ [f])).Perm
        (G.elementWith entries (G.namesOf fields ++ [f.decl.name]) :: rest) ∧
      (Draft.enterGroup store owner (G.elementWith entries [])).2.Holds
        (G.elementWith entries (G.namesOf fields) :: (es ++ rest))
        (ls ++ (m.groupsOf (fields ++ [f])).map (GroupSite.ownerLink entries)) ∧
      (Draft.enterGroup store owner (G.elementWith entries [])).2.keyOf?
        (Draft.enterGroup store owner (G.elementWith entries [])).1 = some G.key ∧
      store.Keeps (Draft.enterGroup store owner (G.elementWith entries [])).2 := by
  obtain ⟨rest, happend, hold, hfresh⟩ :=
    MessageSite.groupElements_append entries fields hf hgroup
  have hdeclared : G ∈ m.declaredGroups := hf ▸ (FieldSite.group?_eq_some_iff.mp hgroup).1
  have hmessage : G.message = m := MessageSite.message_of_mem_declaredGroups hdeclared
  refine ⟨rest, happend, ?_⟩
  by_cases hmem : G ∈ m.groupsOf fields
  · -- The group came with an earlier member.
    have hperm : (es ++ m.groupElements entries fields).Perm
        (G.elementWith entries (G.namesOf fields) :: (es ++ rest)) :=
      ((hold hmem).append_left es).trans List.perm_middle
    obtain ⟨id, hfind, hkey, -⟩ := h.exists_find? (hperm.mem_iff.mpr List.mem_cons_self)
    have henter : Draft.enterGroup store owner (G.elementWith entries []) = (id, store) :=
      enterGroup_of_find? hfind
    rw [henter, MessageSite.groupsOf_append_of_mem hf hgroup hmem]
    exact ⟨h.perm hperm (List.Perm.refl _), hkey, Store.Keeps.refl _⟩
  · -- This is the first member.
    obtain rfl := hfresh hmem
    have hkey : (G.elementWith entries []).key ∉
        (es ++ m.groupElements entries fields).map Element.key := hnew hmem
    have hadded := h.addElement hkey
    have hid := h.keyOf?_addElement hkey
    have hkeeps := Store.keeps_addElement h.valid (G.elementWith entries [])
    have hlinked := hadded.addLink (Edge.into (G.element entries)) (hkeeps _ _ howner) hid
    rw [enterGroup_of_find?_none (h.find?_eq_none hkey)]
    refine ⟨hlinked.perm ?_ ?_, hid, hkeeps⟩
    · rw [GroupSite.namesOf_eq_nil hdeclared hmem]
    · refine List.perm_middle.symm.trans (List.Perm.append_left ls ?_)
      refine List.Perm.trans ?_
        ((MessageSite.groupsOf_append_of_notMem hf hgroup hmem).map _).symm
      rw [List.map_cons, GroupSite.ownerLink, hmessage]
      exact List.Perm.refl _

/-- What the store holds once some fields of a message are taken up, and what
the message owns so far. -/
structure Entered (entries : List String) (g₀ : Store) (es : List Element)
    (ls : List PendingLink) (m : MessageSite) (fields : List FieldSite)
    (state : Store × List VertexId) : Prop where
  holds : state.1.Holds
    (es ++ fields.map (FieldSite.element entries) ++ m.groupElements entries fields)
    (ls ++ fields.map (FieldSite.ownerLink entries) ++
      (m.groupsOf fields).map (GroupSite.ownerLink entries))
  keeps : g₀.Keeps state.1
  owned : (state.2.map state.1.keyOf?).Perm ((m.ownedOf fields).map fun s => some s.key)

/-- Ownership is by identity, which later stores keep. -/
theorem map_keyOf?_of_keeps {g g' : Store} {ids : List VertexId} {sites : List Site}
    (h : (ids.map g.keyOf?).Perm (sites.map fun s => some s.key)) (hkeeps : g.Keeps g') :
    ids.map g'.keyOf? = ids.map g.keyOf? := by
  refine List.map_congr_left fun id hid => ?_
  obtain ⟨s, -, hkey⟩ := List.mem_map.mp (h.mem_iff.mp (List.mem_map_of_mem hid))
  rw [← hkey]
  exact hkeeps _ _ hkey.symm

/-- A number is among those owned if its identity is. -/
theorem mem_ids_iff_mem_sites {g g' : Store} {ids : List VertexId} {sites : List Site}
    {id : VertexId} {key : ElementKey}
    (h : (ids.map g.keyOf?).Perm (sites.map fun s => some s.key)) (hkeeps : g.Keeps g')
    (hvalid : g'.Valid) (hid : g'.keyOf? id = some key) :
    id ∈ ids ↔ key ∈ sites.map Site.key := by
  constructor
  · intro hmem
    obtain ⟨s, hs, hkey⟩ := List.mem_map.mp (h.mem_iff.mp (List.mem_map_of_mem hmem))
    have hsame := (hkeeps _ _ hkey.symm).symm.trans hid
    exact List.mem_map.mpr ⟨s, hs, Option.some.inj hsame⟩
  · intro hmem
    obtain ⟨s, hs, rfl⟩ := List.mem_map.mp hmem
    obtain ⟨id', hid', hkey⟩ := List.mem_map.mp
      (h.mem_iff.mpr (List.mem_map_of_mem (f := fun s => some s.key) hs))
    rwa [hvalid.eq_of_keyOf? hid (hkeeps _ _ hkey)]

theorem entered_nil (h : store.Holds es ls) (m : MessageSite) :
    Entered entries store es ls m [] (store, []) := by
  have hgroups : m.groupsOf [] = [] := by simp [MessageSite.groupsOf]
  constructor
  · simpa [MessageSite.groupElements, hgroups] using h
  · exact Store.Keeps.refl store
  · simp [MessageSite.ownedOf, hgroups]

/-- A field outside groups is owned by its message. -/
theorem owned_append_of_none {g g' : Store} {ids : List VertexId} {id : VertexId}
    (howned : (ids.map g.keyOf?).Perm ((m.ownedOf fields).map fun s => some s.key))
    (hkeeps : g.Keeps g') (hid : g'.keyOf? id = some f.key) (hf : f.message = m)
    (hgroup : f.group? = none) :
    ((ids ++ [id]).map g'.keyOf?).Perm ((m.ownedOf (fields ++ [f])).map fun s => some s.key) := by
  have hsites : m.ownedOf (fields ++ [f]) =
      (fields.filter fun f => f.group?.isNone).map Site.field ++
        Site.field f :: (m.groupsOf fields).map Site.group := by
    simp [MessageSite.ownedOf, MessageSite.groupsOf_append_of_none hf hgroup, List.filter_append,
      hgroup]
  rw [List.map_append, map_keyOf?_of_keeps howned hkeeps, hsites]
  refine (howned.append_right _).trans ?_
  simp only [MessageSite.ownedOf, List.map_append, List.map_cons, List.map_nil, hid]
  rw [List.append_assoc]
  exact List.Perm.append_left _ (List.perm_append_singleton _ _)

/-- The group of a field is owned by its message, once however many members it has. -/
theorem owned_append_of_some {g g' : Store} {ids : List VertexId} {id : VertexId}
    (howned : (ids.map g.keyOf?).Perm ((m.ownedOf fields).map fun s => some s.key))
    (hkeeps : g.Keeps g') (hvalid : g'.Valid) (hid : g'.keyOf? id = some G.key)
    (hf : f.message = m) (hgroup : f.group? = some G)
    (hnew : G ∉ m.groupsOf fields → G.key ∉ (m.groupsOf fields).map GroupSite.key) :
    ((if ids.contains id then ids else ids ++ [id]).map g'.keyOf?).Perm
      ((m.ownedOf (fields ++ [f])).map fun s => some s.key) := by
  have hfilter : (fields ++ [f]).filter (fun f => f.group?.isNone) =
      fields.filter fun f => f.group?.isNone := by
    simp [List.filter_append, hgroup]
  have hmem := mem_ids_iff_mem_sites howned hkeeps hvalid hid
  by_cases hg : G ∈ m.groupsOf fields
  · have hcontains : ids.contains id := by
      rw [List.contains_iff_mem, hmem]
      exact List.mem_map.mpr ⟨.group G, by simp [MessageSite.ownedOf, hg], rfl⟩
    rw [if_pos hcontains, map_keyOf?_of_keeps howned hkeeps, MessageSite.ownedOf, hfilter,
      MessageSite.groupsOf_append_of_mem hf hgroup hg]
    exact howned
  · -- A vertex that is owned already would be a field or an earlier group.
    have hcontains : ¬ ids.contains id := by
      rw [List.contains_iff_mem, hmem, List.mem_map]
      rintro ⟨s, hs, hkey⟩
      rcases List.mem_append.mp hs with hs | hs
      · obtain ⟨f', -, rfl⟩ := List.mem_map.mp hs
        exact absurd (congrArg ElementKey.kind hkey)
          (by simp [Site.key, FieldSite.key, GroupSite.key])
      · obtain ⟨g', hg', rfl⟩ := List.mem_map.mp hs
        exact hnew hg (List.mem_map.mpr ⟨g', hg', hkey⟩)
    rw [if_neg hcontains, List.map_append, map_keyOf?_of_keeps howned hkeeps,
      MessageSite.ownedOf, hfilter]
    refine (howned.append_right _).trans ?_
    simp only [MessageSite.ownedOf, List.map_append, List.map_cons, List.map_nil, hid]
    rw [List.append_assoc]
    refine List.Perm.append_left _ ((List.perm_append_singleton _ _).trans ?_)
    have hperm := (MessageSite.groupsOf_append_of_notMem hf hgroup hg).symm.map Site.group
    exact hperm.map fun s => some s.key

/-- The identities that are there once some fields of a message are taken up. -/
theorem mem_map_key_iff {fields' : List FieldSite} {key : ElementKey} :
    key ∈ (es ++ fields'.map (FieldSite.element entries) ++
        m.groupElements entries fields).map Element.key ↔
      key ∈ es.map Element.key ∨ key ∈ fields'.map FieldSite.key ∨
        key ∈ (m.groupsOf fields).map GroupSite.key := by
  rw [List.map_append, List.map_append, map_key_groupElements, List.map_map, List.mem_append,
    List.mem_append, or_assoc]
  rfl

/-- A field outside groups. -/
theorem Entered.append_of_none {state : Store × List VertexId}
    (h : Entered entries g₀ es ls m fields state) (howner : g₀.keyOf? owner = some m.key)
    (hf : f.message = m) (hgroup : f.group? = none)
    (hfield : f.key ∉ (es ++ fields.map (FieldSite.element entries) ++
      m.groupElements entries fields).map Element.key) :
    Entered entries g₀ es ls m (fields ++ [f])
      (Draft.addMember owner state (f.member entries)) := by
  obtain ⟨g, owned⟩ := state
  have hadded := h.holds.addElement (e := f.element entries) hfield
  have hid : (g.addElement (f.element entries)).2.keyOf? (g.addElement (f.element entries)).1 =
      some f.key := h.holds.keyOf?_addElement (e := f.element entries) hfield
  have hkeeps := Store.keeps_addElement h.holds.valid (f.element entries)
  have hlinked := hadded.addLink (Edge.into (f.element entries))
    (hkeeps _ _ (h.keeps _ _ howner)) hid
  have hstep : Draft.addMember owner (g, owned) (f.member entries) =
      (((g.addElement (f.element entries)).2.addLink owner (g.addElement (f.element entries)).1
        (Edge.into (f.element entries))).2, owned ++ [(g.addElement (f.element entries)).1]) := by
    simp [Draft.addMember, f.field_member, f.group_member, hgroup]
  have hgroups : m.groupsOf (fields ++ [f]) = m.groupsOf fields :=
    MessageSite.groupsOf_append_of_none hf hgroup
  rw [hstep]
  refine ⟨hlinked.perm ?_ ?_, h.keeps.trans hkeeps,
    owned_append_of_none h.owned hkeeps hid hf hgroup⟩
  · rw [MessageSite.groupElements_append_of_none hf hgroup, List.map_append]
    exact cons_perm_append_middle _ _ _ _
  · have hlink : f.ownerLink entries = ⟨m.key, f.key, Edge.into (f.element entries)⟩ := by
      simp [FieldSite.ownerLink, hgroup, hf]
    rw [hgroups, List.map_append, ← hlink]
    exact cons_perm_append_middle _ _ _ _

/-- A field in a group. -/
theorem Entered.append_of_some {state : Store × List VertexId}
    (h : Entered entries g₀ es ls m fields state) (howner : g₀.keyOf? owner = some m.key)
    (hf : f.message = m) (hgroup : f.group? = some G)
    (hfield : f.key ∉ (es ++ fields.map (FieldSite.element entries) ++
      m.groupElements entries fields).map Element.key)
    (hnew : G ∉ m.groupsOf fields → G.key ∉ (es ++
      (fields ++ [f]).map (FieldSite.element entries) ++
        m.groupElements entries fields).map Element.key) :
    Entered entries g₀ es ls m (fields ++ [f])
      (Draft.addMember owner state (f.member entries)) := by
  obtain ⟨g, owned⟩ := state
  have hid : (g.addElement (f.element entries)).2.keyOf? (g.addElement (f.element entries)).1 =
      some f.key := h.holds.keyOf?_addElement (e := f.element entries) hfield
  have hkeeps := Store.keeps_addElement h.holds.valid (f.element entries)
  have hadded : (g.addElement (f.element entries)).2.Holds
      (es ++ (fields ++ [f]).map (FieldSite.element entries) ++ m.groupElements entries fields)
      (ls ++ fields.map (FieldSite.ownerLink entries) ++
        (m.groupsOf fields).map (GroupSite.ownerLink entries)) := by
    refine (h.holds.addElement (e := f.element entries) hfield).perm ?_ (List.Perm.refl _)
    rw [List.map_append]
    exact cons_perm_append_middle _ _ _ _
  generalize hg' : g.addElement (f.element entries) = added at hadded hid hkeeps
  obtain ⟨fieldId, g'⟩ := added
  obtain ⟨rest, happend, hentered, hgroupId, hkeeps'⟩ :=
    enterGroup_holds hadded (hkeeps _ _ (h.keeps _ _ howner)) hf hgroup hnew
  generalize henter : Draft.enterGroup g' owner (G.elementWith entries []) = entered
    at hentered hgroupId hkeeps'
  obtain ⟨groupId, g''⟩ := entered
  have hmember (e : Element) : (e.addMember f.decl.name).key = e.key :=
    Element.key_addMember e f.decl.name
  have hupdated := hentered.update hgroupId hmember
  have hkeeps'' := Store.keeps_update g'' groupId hmember
  have hlinked := hupdated.addLink (Edge.into (f.element entries))
    (hkeeps'' _ _ hgroupId) (hkeeps'' _ _ (hkeeps' _ _ hid))
  have hstep : Draft.addMember owner (g, owned) (f.member entries) =
      (((g''.update groupId (Element.addMember f.decl.name)).addLink groupId fieldId
        (Edge.into (f.element entries))).2,
        if owned.contains groupId then owned else owned ++ [groupId]) := by
    have hname : (f.member entries).name = f.decl.name := rfl
    simp only [Draft.addMember, f.field_member, f.group_member, hgroup, Option.map_some, hname,
      hg', henter]
  have hkeepsAll := hkeeps.trans (hkeeps'.trans hkeeps'')
  have howned := owned_append_of_some h.owned hkeepsAll hupdated.valid (hkeeps'' _ _ hgroupId) hf
    hgroup fun hnot hin => hnew hnot (mem_map_key_iff.mpr (Or.inr (Or.inr hin)))
  rw [hstep]
  refine ⟨hlinked.perm ?_ ?_, h.keeps.trans hkeepsAll, howned⟩
  · exact List.perm_middle.symm.trans (happend.symm.append_left _)
  · have hlink : f.ownerLink entries = ⟨G.key, f.key, Edge.into (f.element entries)⟩ := by
      simp [FieldSite.ownerLink, hgroup]
    rw [List.map_append, ← hlink]
    exact cons_perm_append_middle _ _ _ _

/-- A field and a group never share an identity. -/
theorem FieldSite.key_ne_group (f : FieldSite) (g : GroupSite) : f.key ≠ g.key :=
  fun heq => absurd (congrArg ElementKey.kind heq) (by simp [FieldSite.key, GroupSite.key])

/-- All fields of a message, one after the other. -/
theorem entered_addMembers (h : store.Holds es ls) (howner : store.keyOf? owner = some m.key)
    (hkeys : (es.map Element.key ++
      (m.fields.map FieldSite.key ++ m.groups.map GroupSite.key)).Nodup) :
    Entered entries store es ls m m.fields
      (Draft.addMembers store owner (m.fields.map (FieldSite.member entries))) := by
  obtain ⟨-, hown, hdisjoint⟩ := List.nodup_append.mp hkeys
  obtain ⟨hfields, hgroups, -⟩ := List.nodup_append.mp hown
  -- The invariant is for the fields so far, those to come being the rest.
  suffices hprefix : ∀ fields rest, fields ++ rest = m.fields →
      Entered entries store es ls m fields
        ((fields.map (FieldSite.member entries)).foldl (Draft.addMember owner) (store, [])) from
    hprefix m.fields [] (List.append_nil _)
  intro fields
  induction fields using List.reverseRecOn with
  | nil => exact fun _ _ => entered_nil h m
  | append_singleton fields f ih =>
      intro rest hsplit
      rw [List.append_assoc, List.singleton_append] at hsplit
      have hentered := ih (f :: rest) hsplit
      have hmem : f ∈ m.fields := by simp [← hsplit]
      have hf : f.message = m := MessageSite.message_of_mem_fields hmem
      have hfield : f.key ∉ (es ++ fields.map (FieldSite.element entries) ++
          m.groupElements entries fields).map Element.key := by
        rw [mem_map_key_iff]
        rintro (hin | hin | hin)
        · exact hdisjoint _ hin _ (List.mem_append_left _ (List.mem_map_of_mem hmem)) rfl
        · rw [← hsplit, List.map_append, List.map_cons] at hfields
          exact (List.nodup_append.mp hfields).2.2 _ hin _ List.mem_cons_self rfl
        · obtain ⟨g, -, hkey⟩ := List.mem_map.mp hin
          exact f.key_ne_group g hkey.symm
      rw [List.map_append, List.foldl_append]
      cases hgroup : f.group? with
      | none => exact hentered.append_of_none howner hf hgroup hfield
      | some G =>
          have hG : G ∈ m.groups := FieldSite.group_mem_groups hmem hgroup
          refine hentered.append_of_some howner hf hgroup hfield fun hnot => ?_
          rw [mem_map_key_iff]
          rintro (hin | hin | hin)
          · exact hdisjoint _ hin _ (List.mem_append_right _ (List.mem_map_of_mem hG)) rfl
          · obtain ⟨f', -, hkey⟩ := List.mem_map.mp hin
            exact f'.key_ne_group G hkey
          · obtain ⟨g, hg, hkey⟩ := List.mem_map.mp hin
            obtain ⟨hdeclared, f', hf', hin'⟩ := MessageSite.mem_groupsOf_iff.mp hg
            have hmember : g ∈ m.groups :=
              MessageSite.mem_groups_iff.mpr ⟨hdeclared, f', by simp [← hsplit, hf'], hin'⟩
            exact hnot (List.inj_on_of_nodup_map hgroups hmember hG hkey ▸ hg)

end Members

end SchemaGraph

import Mathlib.Data.List.Flatten
import SchemaGraph.Proofs.Schema.Members

/-!
# A draft covers what is declared

`Draft.Covers` says that a draft holds the vertices of some declarations, one
edge into each field and group from what it belongs to, and for some messages
what they directly own.  Every declaration taken up extends it, so the draft of
a whole set covers everything the set declares (`covers_ofDeclarations`), provided
that no two declarations of one kind share a full name.

References between declarations are not resolved here.
-/

namespace SchemaGraph

/-- A draft holds the vertices of these declarations with the edges of
ownership, and knows what these messages own. -/
structure Draft.Covers (entries : List String) (d : Draft) (sites : List Site)
    (messages : List MessageSite) : Prop where
  holds : d.store.Holds (sites.map (Site.element entries))
    (sites.filterMap (Site.ownerLink? entries))
  owned : ∀ m ∈ messages,
    ((d.ownedBy m.fullName).map d.store.keyOf?).Perm (m.owned.map fun s => some s.key)

section Covers

variable {entries : List String} {d : Draft} {sites sites' : List Site}
variable {messages : List MessageSite} {m : MessageSite}

theorem Draft.covers_empty : ({} : Draft).Covers entries [] [] where
  holds := Store.holds_empty
  owned := by simp

theorem Draft.Covers.perm (h : d.Covers entries sites messages) (hperm : sites.Perm sites') :
    d.Covers entries sites' messages where
  holds := h.holds.perm (hperm.map _) (hperm.filterMap _)
  owned := h.owned

theorem Draft.Covers.nodup_keys (h : d.Covers entries sites messages) :
    (sites.map Site.key).Nodup := by
  have hnodup := h.holds.nodup_keys
  rwa [Site.map_key_element] at hnodup

/-- A message or an enum is taken up. -/
theorem Draft.Covers.declare_element (h : d.Covers entries sites messages) {s : Site}
    (howner : s.owner? = none) (hkey : s.key ∉ sites.map Site.key) :
    (d.declare (.element (s.element entries))).Covers entries (sites ++ [s]) messages := by
  have hkey' : (s.element entries).key ∉ (sites.map (Site.element entries)).map Element.key := by
    rwa [Site.map_key_element, Site.key_element]
  constructor
  · refine (h.holds.addElement hkey').perm ?_ ?_
    · rw [List.map_append]
      exact (List.perm_append_singleton _ _).symm
    · rw [List.filterMap_append]
      simp [Site.ownerLink?, howner]
  · intro m hm
    have hkeeps := Store.keeps_addElement h.holds.valid (s.element entries)
    have hsame := map_keyOf?_of_keeps (h.owned m hm) hkeeps
    show ((d.ownedBy m.fullName).map (d.store.addElement (s.element entries)).2.keyOf?).Perm _
    rw [hsame]
    exact h.owned m hm

/-- Several messages or enums are taken up. -/
theorem Draft.Covers.declare_elements (h : d.Covers entries sites messages) (added : List Site)
    (howner : ∀ s ∈ added, s.owner? = none) (hkeys : ((sites ++ added).map Site.key).Nodup) :
    ((added.map fun s => Declaration.element (s.element entries)).foldl Draft.declare d).Covers
      entries (sites ++ added) messages := by
  induction added generalizing d sites with
  | nil => simpa using h
  | cons s rest ih =>
      have hkey : s.key ∉ sites.map Site.key := by
        rw [List.map_append, List.map_cons] at hkeys
        exact fun hmem => (List.nodup_append.mp hkeys).2.2 _ hmem _ List.mem_cons_self rfl
      have hstep := h.declare_element (howner s List.mem_cons_self) hkey
      have hassoc : sites ++ s :: rest = sites ++ [s] ++ rest := by simp
      rw [hassoc] at hkeys ⊢
      exact ih hstep (fun s' hs' => howner s' (List.mem_cons_of_mem _ hs')) hkeys

theorem ownerLink?_field (f : FieldSite) :
    (Site.field f).ownerLink? entries = some (f.ownerLink entries) := by
  cases hgroup : f.group? <;>
    simp [Site.ownerLink?, Site.owner?, FieldSite.ownerLink, hgroup, Site.key, Site.element]

theorem ownerLink?_group (g : GroupSite) :
    (Site.group g).ownerLink? entries = some (g.ownerLink entries) := rfl

theorem groupElements_fields (m : MessageSite) :
    m.groupElements entries m.fields = m.groups.map (GroupSite.element entries) := by
  refine List.map_congr_left fun g hg => ?_
  rw [GroupSite.element, GroupSite.members,
    MessageSite.message_of_mem_declaredGroups (MessageSite.mem_groupsOf_iff.mp hg).1]

/-- The fields of a message and their groups. -/
def MessageSite.memberSites (m : MessageSite) : List Site :=
  m.fields.map Site.field ++ m.groups.map Site.group

theorem ownerLinks_memberSites (m : MessageSite) :
    m.memberSites.filterMap (Site.ownerLink? entries) =
      m.fields.map (FieldSite.ownerLink entries) ++ m.groups.map (GroupSite.ownerLink entries) := by
  have hfields : (m.fields.map Site.field).filterMap (Site.ownerLink? entries) =
      m.fields.map (FieldSite.ownerLink entries) := by
    rw [List.filterMap_map, ← List.filterMap_eq_map]
    exact List.filterMap_congr fun f _ => ownerLink?_field f
  have hgroups : (m.groups.map Site.group).filterMap (Site.ownerLink? entries) =
      m.groups.map (GroupSite.ownerLink entries) := by
    rw [List.filterMap_map, ← List.filterMap_eq_map]
    exact List.filterMap_congr fun g _ => ownerLink?_group g
  rw [MessageSite.memberSites, List.filterMap_append, hfields, hgroups]

/-- What a message owns is what its last declaration said. -/
theorem ownedBy_cons (store : Store) (message name : String) (ids : List VertexId)
    (owned : List (String × List VertexId)) :
    Draft.ownedBy ⟨store, (message, ids) :: owned⟩ name =
      if name = message then ids else Draft.ownedBy ⟨store, owned⟩ name := by
  split
  · next heq => simp [Draft.ownedBy, heq]
  · next hne => simp [Draft.ownedBy, List.lookup_cons, beq_false_of_ne hne]

/-- The fields of a message are taken up. -/
theorem Draft.Covers.declare_members (h : d.Covers entries sites messages)
    (hm : Site.message m ∈ sites) (hkeys : ((sites ++ m.memberSites).map Site.key).Nodup)
    (hnew : m.fullName ∉ messages.map MessageSite.fullName) :
    (d.declare (.members m.fullName (m.decl.members ⟨m.file, entries⟩ m.fullName m.path))).Covers
      entries (sites ++ m.memberSites) (m :: messages) := by
  obtain ⟨owner, hfound, howner, -⟩ := h.holds.exists_find? (List.mem_map_of_mem hm)
  have hfind : d.store.find? (.message m.fullName) = some owner := hfound
  have hkeys' : ((sites.map (Site.element entries)).map Element.key ++
      (m.fields.map FieldSite.key ++ m.groups.map GroupSite.key)).Nodup := by
    rw [Site.map_key_element]
    simpa [MessageSite.memberSites, Function.comp_def, Site.key] using hkeys
  have hentered : Entered entries _ _ _ m m.fields _ := entered_addMembers h.holds howner hkeys'
  have hdeclare : d.declare (.members m.fullName (m.fields.map (FieldSite.member entries))) =
      { store := (Draft.addMembers d.store owner (m.fields.map (FieldSite.member entries))).1
        owned := (m.fullName,
          (Draft.addMembers d.store owner (m.fields.map (FieldSite.member entries))).2) ::
            d.owned } := by
    simp [Draft.declare, hfind]
  rw [MessageSite.members_eq, hdeclare]
  generalize Draft.addMembers d.store owner (m.fields.map (FieldSite.member entries)) = state
    at hentered
  constructor
  · refine hentered.holds.perm ?_ ?_
    · rw [groupElements_fields, MessageSite.memberSites, List.map_append, List.map_append,
        List.map_map, List.map_map, List.append_assoc]
      exact List.Perm.refl _
    · rw [List.filterMap_append, ownerLinks_memberSites, List.append_assoc]
      exact List.Perm.refl _
  · intro m' hm'
    rw [ownedBy_cons]
    rcases List.mem_cons.mp hm' with rfl | hm'
    · rw [if_pos rfl]
      exact hentered.owned
    · -- The message is new, so what the others own is as it was.
      have hne : m'.fullName ≠ m.fullName := fun heq => hnew (heq ▸ List.mem_map_of_mem hm')
      rw [if_neg hne]
      have hsame := map_keyOf?_of_keeps (h.owned m' hm') hentered.keeps
      show ((d.ownedBy m'.fullName).map state.1.keyOf?).Perm _
      rw [hsame]
      exact h.owned m' hm'

/-! ## Whole messages, files and sets -/

theorem enumDeclarations_eq (file : FileDecl) (outer : List String) (path : List Int32)
    (list : Int32) (enums : List EnumDecl) :
    enumDeclarations ⟨file, entries⟩ (parentName file outer) path list enums =
      ((enums.zipIdx.map fun entry =>
          Site.enum ⟨file, outer, childPath path list entry.2, entry.1⟩).map fun s =>
        Declaration.element (s.element entries)) := by
  rw [enumDeclarations, List.map_map]
  rfl

theorem FileDecl.enumDeclarations_file (file : FileDecl) :
    enumDeclarations ⟨file, entries⟩ none [] fileEnums file.enums =
      (file.enumSites.map Site.enum).map fun s => Declaration.element (s.element entries) := by
  have hsites : file.enumSites.map Site.enum = file.enums.zipIdx.map fun entry =>
      Site.enum ⟨file, [], childPath [] fileEnums entry.2, entry.1⟩ := by
    rw [enumSites, List.map_map]
    rfl
  rw [hsites]
  exact enumDeclarations_eq file [] [] fileEnums file.enums

/-- The declarations of a message, those of the messages inside it named by
their sites. -/
theorem declarations_eq (m : MessageSite) :
    m.decl.declarations ⟨m.file, entries⟩ (parentName m.file m.outer) m.path =
      [.element ((Site.message m).element entries)] ++
        (nestedDeclarations ⟨m.file, entries⟩ (parentName m.file m.inner) m.path messageNested 0
            m.decl.nested ++
          ((m.enums.map Site.enum).map (fun s => Declaration.element (s.element entries)) ++
            [.members m.fullName (m.decl.members ⟨m.file, entries⟩ m.fullName m.path)])) := by
  have henums : (m.enums.map Site.enum).map (fun s => Declaration.element (s.element entries)) =
      enumDeclarations ⟨m.file, entries⟩ (parentName m.file m.inner) m.path messageEnums
        m.decl.enums := by
    rw [enumDeclarations_eq, MessageSite.enums]
    simp only [List.map_map]
    rfl
  rw [henums, MessageSite.parentName_inner]
  obtain ⟨file, outer, path, ⟨name, fields, nested, enums, extensions, oneofs, isMapEntry⟩⟩ := m
  simp only [MessageDecl.declarations, parentName_getD, List.append_assoc, List.singleton_append]
  rfl

/-- The order in which a message is taken up: it comes first, its members last. -/
theorem perm_sites_of_message (sites inside : List Site) (m : MessageSite) :
    (sites ++ [Site.message m] ++ inside ++ m.enums.map Site.enum ++ m.memberSites).Perm
      (sites ++ (m.sites ++ inside)) := by
  have hsites : m.sites = Site.message m :: (m.enums.map Site.enum ++ m.memberSites) := rfl
  rw [hsites]
  simp only [List.append_assoc, List.cons_append, List.nil_append]
  refine List.Perm.append_left _ (List.Perm.cons _ ?_)
  rw [← List.append_assoc _ m.memberSites inside]
  exact List.perm_append_comm

/-- Taking up a message, given that the messages inside it are taken up. -/
theorem Draft.Covers.declarations {inside : List MessageSite}
    (hnested : ∀ (d : Draft) (sites : List Site), d.Covers entries sites messages →
      ((sites ++ inside.flatMap MessageSite.sites).map Site.key).Nodup →
      ((inside ++ messages).map MessageSite.fullName).Nodup →
      ((nestedDeclarations ⟨m.file, entries⟩ (parentName m.file m.inner) m.path messageNested 0
        m.decl.nested).foldl Draft.declare d).Covers entries
        (sites ++ inside.flatMap MessageSite.sites) (inside ++ messages))
    (h : d.Covers entries sites messages)
    (hkeys : ((sites ++ (m :: inside).flatMap MessageSite.sites).map Site.key).Nodup)
    (hnames : ((m :: inside ++ messages).map MessageSite.fullName).Nodup) :
    ((m.decl.declarations ⟨m.file, entries⟩ (parentName m.file m.outer) m.path).foldl
      Draft.declare d).Covers entries (sites ++ (m :: inside).flatMap MessageSite.sites)
      (m :: inside ++ messages) := by
  have hperm := perm_sites_of_message sites (inside.flatMap MessageSite.sites) m
  rw [List.flatMap_cons] at hkeys ⊢
  have hkeys₄ := ((hperm.map Site.key).nodup_iff).mpr hkeys
  -- Each earlier stage has fewer declarations, so their identities differ as well.
  have hkeys₃ := hkeys₄.sublist ((List.sublist_append_left _ m.memberSites).map _)
  have hkeys₂ := hkeys₃.sublist ((List.sublist_append_left _ (m.enums.map Site.enum)).map _)
  have hkeys₁ := hkeys₂.sublist
    ((List.sublist_append_left _ (inside.flatMap MessageSite.sites)).map _)
  have h₁ := h.declare_elements [Site.message m] (by simp [Site.owner?]) hkeys₁
  rw [List.cons_append, List.map_cons, List.nodup_cons] at hnames
  have h₂ := hnested _ _ h₁ hkeys₂ hnames.2
  have h₃ := h₂.declare_elements (m.enums.map Site.enum) (by simp [Site.owner?]) hkeys₃
  have hm : Site.message m ∈ sites ++ [Site.message m] ++ inside.flatMap MessageSite.sites ++
      m.enums.map Site.enum := by simp
  have h₄ := h₃.declare_members hm hkeys₄ hnames.1
  rw [declarations_eq, List.foldl_append, List.foldl_append, List.foldl_append]
  exact h₄.perm hperm

mutual

/-- Taking up a message and everything inside it. -/
theorem covers_declarations (decl : MessageDecl) (file : FileDecl) (outer : List String)
    (path : List Int32) (d : Draft) (sites : List Site) (messages : List MessageSite)
    (h : d.Covers entries sites messages)
    (hkeys : ((sites ++ (decl.sites file outer path).flatMap MessageSite.sites).map
      Site.key).Nodup)
    (hnames : ((decl.sites file outer path ++ messages).map MessageSite.fullName).Nodup) :
    ((decl.declarations ⟨file, entries⟩ (parentName file outer) path).foldl Draft.declare d).Covers
      entries (sites ++ (decl.sites file outer path).flatMap MessageSite.sites)
      (decl.sites file outer path ++ messages) := by
  match decl with
  | ⟨name, fields, nested, enums, extensions, oneofs, isMapEntry⟩ =>
    have hnested := covers_nestedDeclarations nested file (outer ++ [name]) path messageNested 0
    exact h.declarations (m := ⟨file, outer, path, _⟩)
      (fun d sites h => hnested d sites messages h) hkeys hnames

/-- Taking up several messages and everything inside them. -/
theorem covers_nestedDeclarations (decls : List MessageDecl) (file : FileDecl)
    (outer : List String) (path : List Int32) (list : Int32) (position : Nat) (d : Draft)
    (sites : List Site) (messages : List MessageSite) (h : d.Covers entries sites messages)
    (hkeys : ((sites ++ (nestedSites file outer path list position decls).flatMap
      MessageSite.sites).map Site.key).Nodup)
    (hnames : ((nestedSites file outer path list position decls ++ messages).map
      MessageSite.fullName).Nodup) :
    ((nestedDeclarations ⟨file, entries⟩ (parentName file outer) path list position decls).foldl
      Draft.declare d).Covers entries
      (sites ++ (nestedSites file outer path list position decls).flatMap MessageSite.sites)
      (nestedSites file outer path list position decls ++ messages) := by
  match decls with
  | [] => simpa [nestedDeclarations, nestedSites] using h
  | decl :: rest =>
    rw [nestedSites] at hkeys hnames ⊢
    rw [nestedDeclarations, List.foldl_append]
    rw [List.flatMap_append, ← List.append_assoc] at hkeys ⊢
    have hfirst := covers_declarations decl file outer (childPath path list position) d sites
      messages h (hkeys.sublist ((List.sublist_append_left _ _).map _))
      (hnames.sublist (((List.sublist_append_left _ _).append_right _).map _))
    have hperm (as bs : List MessageSite) :
        (bs ++ (as ++ messages)).Perm (as ++ bs ++ messages) := by
      rw [← List.append_assoc]
      exact List.perm_append_comm.append_right _
    -- What is taken up last is listed first, hence the permutation.
    have hrest := covers_nestedDeclarations rest file outer path list (position + 1) _ _ _ hfirst
      hkeys (((hperm _ _).map _).nodup_iff.mpr hnames)
    exact ⟨hrest.holds, fun m hm => hrest.owned m ((hperm _ _).mem_iff.mpr hm)⟩

end

/-- Taking up a file. -/
theorem Draft.Covers.declare_file (file : FileDecl) (h : d.Covers entries sites messages)
    (hkeys : ((sites ++ file.sites).map Site.key).Nodup)
    (hnames : ((file.messageSites ++ messages).map MessageSite.fullName).Nodup) :
    ((file.declarations entries).foldl Draft.declare d).Covers entries (sites ++ file.sites)
      (file.messageSites ++ messages) := by
  rw [FileDecl.sites, ← List.append_assoc] at hkeys ⊢
  have hfirst := h.declare_elements (file.enumSites.map Site.enum) (by simp [Site.owner?])
    (hkeys.sublist ((List.sublist_append_left _ _).map _))
  rw [FileDecl.declarations, file.enumDeclarations_file, List.foldl_append]
  exact covers_nestedDeclarations file.messages file [] [] fileMessages 0 _ _ _ hfirst hkeys hnames

/-- Taking up several files. -/
theorem Draft.Covers.declare_files (files : List FileDecl) (h : d.Covers entries sites messages)
    (hkeys : ((sites ++ files.flatMap FileDecl.sites).map Site.key).Nodup)
    (hnames : ((files.flatMap FileDecl.messageSites ++ messages).map
      MessageSite.fullName).Nodup) :
    ((files.flatMap (FileDecl.declarations entries)).foldl Draft.declare d).Covers entries
      (sites ++ files.flatMap FileDecl.sites)
      (files.flatMap FileDecl.messageSites ++ messages) := by
  induction files generalizing d sites messages with
  | nil => simpa using h
  | cons file rest ih =>
      rw [List.flatMap_cons] at hnames
      rw [List.flatMap_cons, ← List.append_assoc] at hkeys
      have hperm (as bs : List MessageSite) :
          (bs ++ (as ++ messages)).Perm (as ++ bs ++ messages) := by
        rw [← List.append_assoc]
        exact List.perm_append_comm.append_right _
      have hfirst := h.declare_file file (hkeys.sublist ((List.sublist_append_left _ _).map _))
        (hnames.sublist (((List.sublist_append_left _ _).append_right _).map _))
      have hrest := ih hfirst hkeys (((hperm _ _).map _).nodup_iff.mpr hnames)
      rw [List.flatMap_cons, List.flatMap_cons, List.flatMap_cons, List.foldl_append,
        ← List.append_assoc]
      exact ⟨hrest.holds, fun m hm => hrest.owned m ((hperm _ _).mem_iff.mpr hm)⟩

end Covers

/-! ## Parts of what a set declares -/

theorem FileSet.flatMap_messageSites_sublist (set : FileSet) (part : MessageSite → List Site)
    (hpart : ∀ m, (part m).Sublist m.sites) :
    (set.messageSites.flatMap part).Sublist set.sites := by
  rw [messageSites, List.flatMap_assoc]
  refine List.Sublist.flatMap_right _ fun file _ => ?_
  exact (List.Sublist.flatMap_right _ fun m _ => hpart m).trans (List.sublist_append_right _ _)

/-- Messages with different identities have different names. -/
theorem FileSet.UniqueKeys.messages {set : FileSet} (h : set.UniqueKeys) :
    (set.messageSites.map MessageSite.fullName).Nodup := by
  have hsub := set.flatMap_messageSites_sublist (fun m => [Site.message m]) fun m =>
    (List.nil_sublist _).cons_cons _
  rw [← List.map_eq_flatMap] at hsub
  have hnodup := h.sublist (hsub.map Site.key)
  rw [List.map_map] at hnodup
  exact List.Nodup.of_map (fun name => ElementKey.mk .message name) (by rwa [List.map_map])

/-- Enums with different identities have different names. -/
theorem FileSet.UniqueKeys.enums {set : FileSet} (h : set.UniqueKeys) :
    (set.enumSites.map EnumSite.fullName).Nodup := by
  have hsub : (set.enumSites.map Site.enum).Sublist set.sites := by
    rw [enumSites, List.map_flatMap]
    refine List.Sublist.flatMap_right _ fun file _ => ?_
    rw [List.map_append, List.map_flatMap]
    refine List.Sublist.append_left (List.Sublist.flatMap_right _ fun m _ => ?_) _
    exact (List.sublist_append_left _ _).cons _
  have hnodup := h.sublist (hsub.map Site.key)
  rw [List.map_map] at hnodup
  exact List.Nodup.of_map (fun name => ElementKey.mk .enum name) (by rwa [List.map_map])

/-- The draft of a set covers everything that the set declares. -/
theorem covers_ofDeclarations {set : FileSet} (h : set.UniqueKeys) :
    (Draft.ofDeclarations set.declarations).Covers set.mapEntries set.sites set.messageSites := by
  have hnames : ((set.files.flatMap FileDecl.messageSites ++ []).map
      MessageSite.fullName).Nodup := by
    rw [List.append_nil]
    exact h.messages
  have hempty : ({} : Draft).Covers set.mapEntries [] [] := Draft.covers_empty
  have hcovers := hempty.declare_files set.files h hnames
  rw [List.append_nil] at hcovers
  exact hcovers

end SchemaGraph

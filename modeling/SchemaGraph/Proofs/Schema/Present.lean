import SchemaGraph.Proofs.Schema.Numbered

/-!
# Every declaration has a vertex

Whatever the names of a set, its graph has a vertex for the identity of each of its
declarations, and for no other identity (`mem_keys_ofSet_iff`).  Of declarations that
share an identity the first one gives the vertex.

A step of taking up a set adds the identities that it asks for (`Underway.declare`) and
takes none away.  The fields of a message are passed over if the message is not there, so
the induction over the declarations follows the messages (`present_declarations`).
-/

namespace SchemaGraph

/-- A field asks for its own identity and that of its group. -/
theorem FieldSite.member_keys (entries : List String) (f : FieldSite) :
    (f.member entries).keys = f.key :: (f.group?.map GroupSite.key).toList := by
  rw [Member.keys, f.field_member, f.group_member, Option.map_map]
  rfl

namespace Draft

open Store

variable {set : FileSet} {d : Draft} {declaration : Declaration} {owner : VertexId}
variable {key : ElementKey} {f : FieldSite}

/-- A draft that has come from some declarations of a set. -/
structure Underway (set : FileSet) (d : Draft) : Prop where
  traced : d.store.Traced set
  numbered : d.store.IsNumbered

theorem underway_empty (set : FileSet) : Underway set {} := ⟨traced_empty, isNumbered_empty⟩

/-- Identities stay. -/
theorem subset_of_grows {g g' : Store} {asked : List ElementKey} (h : g.Grows g' asked)
    (hnumbered : g.IsNumbered) : g.keys ⊆ g'.keys := by
  obtain ⟨-, added, -, hkeys⟩ := h hnumbered
  rw [hkeys]
  exact List.subset_append_left _ _

theorem mem_keys_of_keyOf? {g : Store} {id : VertexId} (h : g.Valid)
    (hkey : g.keyOf? id = some key) : key ∈ g.keys := by
  obtain ⟨e, hmem, rfl⟩ := h.keyOf?_eq_some_iff.mp hkey
  exact mem_keys_iff.mpr ⟨id, e, hmem, rfl⟩

/-! ## Members -/

/-- A field that is taken up is there, and its group is. -/
theorem keys_subset_addMember {state : Store × List VertexId} (h : state.1.Traced set)
    (hnumbered : state.1.IsNumbered) (hf : f ∈ set.fieldSites)
    (howner : state.1.keyOf? owner = some key) (hkind : key.kind ≠ .field) :
    (f.member set.mapEntries).keys ⊆
      (addMember owner state (f.member set.mapEntries)).1.keys := by
  obtain ⟨g, owned⟩ := state
  have hadded : (g.addElement (f.element set.mapEntries)).2.Traced set :=
    h.addElement (FileSet.field_mem_sites.mpr hf) (Site.draws_element _ (.field f))
  have hfield := h.valid.key_mem_addElement (f.element set.mapEntries)
  have hnumbered' := (grows_addElement g (f.element set.mapEntries) hnumbered).1
  rw [f.member_keys]
  cases hgroup : f.group? with
  | none =>
      simp only [addMember, f.field_member, f.group_member, hgroup, Option.map_none,
        Option.toList_none]
      exact List.cons_subset.mpr ⟨hfield, List.nil_subset _⟩
  | some G =>
      have hG : Site.group G ∈ set.sites := by
        obtain ⟨hmessage, hmem⟩ := FileSet.mem_fieldSites_iff.mp hf
        have hmemG := FieldSite.group_mem_groups hmem hgroup
        refine FileSet.group_mem_sites.mpr (FileSet.mem_groupSites_iff.mpr ?_)
        rw [MessageSite.message_of_mem_groups hmemG]
        exact ⟨hmessage, hmemG⟩
      have hkeeps := keeps_addElement h.valid (f.element set.mapEntries)
      obtain ⟨hentered, hgroupId⟩ := Traced.enterGroup hadded hG (hkeeps _ _ howner) hkind
      have hstays := subset_of_grows
        (grows_enterGroup _ owner (G.elementWith set.mapEntries [])) hnumbered'
      have hstep : (addMember owner (g, owned) (f.member set.mapEntries)).1.keys =
          (enterGroup (g.addElement (f.element set.mapEntries)).2 owner
            (G.elementWith set.mapEntries [])).2.keys := by
        simp only [addMember, f.field_member, f.group_member, hgroup, Option.map_some]
        exact keys_update _ _ fun e => e.key_addMember f.decl.name
      rw [hstep]
      refine List.cons_subset.mpr ⟨hstays hfield, List.cons_subset.mpr ⟨?_, List.nil_subset _⟩⟩
      exact mem_keys_of_keyOf? hentered.valid hgroupId

theorem keys_subset_addMembers {fields : List FieldSite} (state : Store × List VertexId)
    (h : state.1.Traced set) (hnumbered : state.1.IsNumbered)
    (hfields : ∀ f ∈ fields, f ∈ set.fieldSites) (howner : state.1.keyOf? owner = some key)
    (hkind : key.kind ≠ .field) : ∀ f ∈ fields, (f.member set.mapEntries).keys ⊆
      ((fields.map (FieldSite.member set.mapEntries)).foldl (addMember owner) state).1.keys := by
  induction fields generalizing state with
  | nil => simp
  | cons f rest ih =>
      have hf := hfields f List.mem_cons_self
      obtain ⟨hstep, hkeeps⟩ := h.takeMember hf howner hkind
      have hnumbered' := (grows_addMember owner state (f.member set.mapEntries) hnumbered).1
      rw [List.map_cons, List.foldl_cons]
      refine List.forall_mem_cons.mpr ⟨?_, ih _ hstep hnumbered'
        (fun f' hf' => hfields f' (List.mem_cons_of_mem _ hf')) (hkeeps _ _ howner)⟩
      exact List.Subset.trans (keys_subset_addMember h hnumbered hf howner hkind)
        (subset_of_grows (grows_addMembers owner _ _) hnumbered')

/-! ## Declarations -/

theorem Underway.declare (h : Underway set d) (hstands : declaration.StandsIn set) :
    Underway set (d.declare declaration) :=
  ⟨traced_declare h.traced hstands, (grows_declare d declaration h.numbered).1⟩

theorem Underway.foldl (h : Underway set d) (declarations : List Declaration)
    (hstands : ∀ declaration ∈ declarations, declaration.StandsIn set) :
    Underway set (declarations.foldl Draft.declare d) ∧
      d.store.keys ⊆ (declarations.foldl Draft.declare d).store.keys := by
  refine ⟨?_, subset_of_grows (grows_foldl_declare declarations d) h.numbered⟩
  induction declarations generalizing d with
  | nil => exact h
  | cons declaration rest ih =>
      exact ih (h.declare (hstands declaration List.mem_cons_self))
        fun later hlater => hstands later (List.mem_cons_of_mem _ hlater)

/-- Messages and enums that are taken up are there. -/
theorem Underway.elements (h : Underway set d) (sites : List Site)
    (hsites : ∀ s ∈ sites, s ∈ set.sites) :
    Underway set ((sites.map fun s => Declaration.element (s.element set.mapEntries)).foldl
        Draft.declare d) ∧
      ∀ s ∈ sites, s.key ∈ ((sites.map fun s => Declaration.element
        (s.element set.mapEntries)).foldl Draft.declare d).store.keys := by
  induction sites generalizing d with
  | nil => exact ⟨h, by simp⟩
  | cons s rest ih =>
      have hs := hsites s List.mem_cons_self
      have hstep : Underway set (d.declare (.element (s.element set.mapEntries))) :=
        h.declare ⟨s, hs, Site.draws_element _ s⟩
      obtain ⟨hrest, hkeys⟩ := ih hstep fun s' hs' => hsites s' (List.mem_cons_of_mem _ hs')
      refine ⟨hrest, List.forall_mem_cons.mpr ⟨?_, hkeys⟩⟩
      have hkey := h.traced.valid.key_mem_addElement (s.element set.mapEntries)
      rw [Site.key_element] at hkey
      exact subset_of_grows (grows_foldl_declare _ _) hstep.numbered hkey

/-- The fields of a message that is there. -/
theorem Underway.members {m : MessageSite} (h : Underway set d) (hm : m ∈ set.messageSites)
    (hthere : m.key ∈ d.store.keys) :
    ∀ f ∈ m.fields, (f.member set.mapEntries).keys ⊆ (d.declare (.members m.fullName
      (m.decl.members ⟨m.file, set.mapEntries⟩ m.fullName m.path))).store.keys := by
  have hfields : ∀ f ∈ m.fields, f ∈ set.fieldSites := fun f hf =>
    FileSet.mem_fieldSites_iff.mpr (MessageSite.message_of_mem_fields hf ▸ ⟨hm, hf⟩)
  rw [Draft.declare, MessageSite.members_eq]
  split
  · next hfind => exact absurd hthere (h.traced.valid.find?_eq_none_iff.mp hfind)
  · next owner hfind =>
    exact keys_subset_addMembers (d.store, []) h.traced h.numbered hfields
      (h.traced.valid.keyOf?_eq_some_iff_find?.mpr hfind) (by intro heq; cases heq)

/-- The identities of the fields and groups of a message are those of its members. -/
theorem key_mem_member_keys (set : FileSet) {m : MessageSite} {s : Site}
    (hs : s ∈ m.fields.map Site.field ++ m.groups.map Site.group) :
    ∃ f ∈ m.fields, s.key ∈ (f.member set.mapEntries).keys := by
  rcases List.mem_append.mp hs with hs | hs
  · obtain ⟨f, hf, rfl⟩ := List.mem_map.mp hs
    exact ⟨f, hf, by rw [f.member_keys]; exact List.mem_cons_self⟩
  · obtain ⟨g, hg, rfl⟩ := List.mem_map.mp hs
    obtain ⟨hdeclared, f, hf, hin⟩ := MessageSite.mem_groups_iff.mp hg
    have hgroup : f.group? = some g := FieldSite.group?_eq_some_iff.mpr
      ⟨MessageSite.message_of_mem_fields hf ▸ hdeclared, hin⟩
    refine ⟨f, hf, ?_⟩
    rw [f.member_keys, hgroup]
    exact List.mem_cons_of_mem _ List.mem_cons_self

/-- A message is taken up, given that the messages inside it are. -/
theorem Underway.message {m : MessageSite} {inside : List MessageSite} (h : Underway set d)
    (hm : m ∈ set.messageSites)
    (hstands : ∀ declaration ∈ nestedDeclarations ⟨m.file, set.mapEntries⟩
      (parentName m.file m.inner) m.path messageNested 0 m.decl.nested, declaration.StandsIn set)
    (hnested : ∀ d, Underway set d → ∀ m' ∈ inside, ∀ s ∈ m'.sites,
      s.key ∈ ((nestedDeclarations ⟨m.file, set.mapEntries⟩ (parentName m.file m.inner) m.path
        messageNested 0 m.decl.nested).foldl Draft.declare d).store.keys) :
    ∀ m' ∈ m :: inside, ∀ s ∈ m'.sites, s.key ∈ ((m.decl.declarations ⟨m.file, set.mapEntries⟩
      (parentName m.file m.outer) m.path).foldl Draft.declare d).store.keys := by
  have hsites (s : Site) (hs : s ∈ m.sites) : s ∈ set.sites :=
    FileSet.mem_sites_iff.mpr (Or.inr ⟨m, hm, hs⟩)
  obtain ⟨h₁, hmessage⟩ := h.elements [.message m]
    (by simpa using FileSet.message_mem_sites.mpr hm)
  obtain ⟨h₂, hkeys₂⟩ := h₁.foldl _ hstands
  obtain ⟨h₃, henums⟩ := h₂.elements (m.enums.map Site.enum) fun s hs =>
    hsites s (List.mem_cons_of_mem _ (List.mem_append_left _ hs))
  have hkeys₃ := subset_of_grows (grows_foldl_declare
    ((m.enums.map Site.enum).map fun s => Declaration.element (s.element set.mapEntries)) _)
    h₂.numbered
  have hkeys₄ := subset_of_grows (grows_declare _
    (.members m.fullName (m.decl.members ⟨m.file, set.mapEntries⟩ m.fullName m.path)))
    h₃.numbered
  have hinside := hnested _ h₁
  have hthere := hkeys₃ (hkeys₂ (hmessage _ List.mem_cons_self))
  rw [declarations_eq, List.foldl_append, List.foldl_append, List.foldl_append]
  refine List.forall_mem_cons.mpr ⟨fun s hs => ?_, fun m' hm' s hs =>
    hkeys₄ (hkeys₃ (hinside m' hm' s hs))⟩
  rcases List.mem_cons.mp hs with rfl | hs
  · exact hkeys₄ hthere
  rcases List.mem_append.mp hs with hs | hs
  · exact hkeys₄ (henums s hs)
  · obtain ⟨f, hf, hkey⟩ := key_mem_member_keys set hs
    exact h₃.members hm hthere f hf hkey

mutual

/-- A message and everything inside it. -/
theorem present_declarations (decl : MessageDecl) (file : FileDecl) (outer : List String)
    (path : List Int32) (hsites : ∀ m ∈ decl.sites file outer path, m ∈ set.messageSites)
    (d : Draft) (h : Underway set d) : ∀ m ∈ decl.sites file outer path, ∀ s ∈ m.sites,
      s.key ∈ ((decl.declarations ⟨file, set.mapEntries⟩ (parentName file outer) path).foldl
        Draft.declare d).store.keys := by
  match decl with
  | ⟨name, fields, nested, enums, extensions, oneofs, isMapEntry⟩ =>
    have hinside : ∀ m ∈ nestedSites file (outer ++ [name]) path messageNested 0 nested,
        m ∈ set.messageSites := fun m hm => hsites m (List.mem_cons_of_mem _ hm)
    exact h.message (m := ⟨file, outer, path, _⟩) (hsites _ List.mem_cons_self)
      (standsIn_nestedDeclarations nested file (outer ++ [name]) path messageNested 0 hinside)
      (present_nestedDeclarations nested file (outer ++ [name]) path messageNested 0 hinside)

/-- Several messages and everything inside them. -/
theorem present_nestedDeclarations (decls : List MessageDecl) (file : FileDecl)
    (outer : List String) (path : List Int32) (list : Int32) (position : Nat)
    (hsites : ∀ m ∈ nestedSites file outer path list position decls, m ∈ set.messageSites)
    (d : Draft) (h : Underway set d) :
    ∀ m ∈ nestedSites file outer path list position decls, ∀ s ∈ m.sites,
      s.key ∈ ((nestedDeclarations ⟨file, set.mapEntries⟩ (parentName file outer) path list position
        decls).foldl Draft.declare d).store.keys := by
  match decls with
  | [] => simp [nestedSites]
  | decl :: rest =>
    rw [nestedSites] at hsites ⊢
    have hfirst := fun m hm => hsites m (List.mem_append_left _ hm)
    have hlater := fun m hm => hsites m (List.mem_append_right _ hm)
    have hthis := present_declarations decl file outer (childPath path list position) hfirst d h
    obtain ⟨hnext, -⟩ := h.foldl _ (standsIn_declarations decl file outer
      (childPath path list position) hfirst)
    have hrest := present_nestedDeclarations rest file outer path list (position + 1) hlater _ hnext
    rw [nestedDeclarations, List.foldl_append]
    intro m hm s hs
    rcases List.mem_append.mp hm with hm | hm
    · exact subset_of_grows (grows_foldl_declare _ _) hnext.numbered (hthis m hm s hs)
    · exact hrest m hm s hs

end

/-- The declarations of a file. -/
theorem Underway.file {file : FileDecl} (h : Underway set d) (hfile : file ∈ set.files) :
    ∀ s ∈ file.sites,
      s.key ∈ ((file.declarations set.mapEntries).foldl Draft.declare d).store.keys := by
  have hmessages (m : MessageSite) (hm : m ∈ file.messageSites) : m ∈ set.messageSites :=
    List.mem_flatMap.mpr ⟨file, hfile, hm⟩
  obtain ⟨h₁, henums⟩ := h.elements (file.enumSites.map Site.enum) fun s hs => by
    obtain ⟨e, he, rfl⟩ := List.mem_map.mp hs
    exact FileSet.mem_sites_iff.mpr (Or.inl ⟨file, hfile, e, he, rfl⟩)
  have hinside := present_nestedDeclarations file.messages file [] [] fileMessages 0 hmessages _ h₁
  rw [FileDecl.declarations, file.enumDeclarations_file, List.foldl_append]
  intro s hs
  rcases List.mem_append.mp hs with hs | hs
  · exact subset_of_grows (grows_foldl_declare _ _) h₁.numbered (henums s hs)
  · obtain ⟨m, hm, hs⟩ := List.mem_flatMap.mp hs
    exact hinside m hm s hs

/-- Files are taken up one after the other. -/
theorem Underway.files {files : List FileDecl} (h : Underway set d)
    (hfiles : ∀ file ∈ files, file ∈ set.files) : ∀ file ∈ files, ∀ s ∈ file.sites,
      s.key ∈ ((files.flatMap (FileDecl.declarations set.mapEntries)).foldl
        Draft.declare d).store.keys := by
  induction files generalizing d with
  | nil => simp
  | cons file rest ih =>
      have hfile := hfiles file List.mem_cons_self
      obtain ⟨hnext, -⟩ := h.foldl (file.declarations set.mapEntries)
        fun declaration hmem => standsIn_of_mem (List.mem_flatMap.mpr ⟨file, hfile, hmem⟩)
      rw [List.flatMap_cons, List.foldl_append]
      refine List.forall_mem_cons.mpr ⟨fun s hs => ?_, ih hnext fun file' hfile' =>
        hfiles file' (List.mem_cons_of_mem _ hfile')⟩
      exact subset_of_grows (grows_foldl_declare _ _) hnext.numbered (h.file hfile s hs)

end Draft

/-- The graph of a set has a vertex for just the identities that the set declares. -/
theorem mem_keys_ofSet_iff {set : FileSet} {key : ElementKey} :
    key ∈ (Draft.ofSet set).store.keys ↔ ∃ s ∈ set.sites, s.key = key := by
  constructor
  · intro hkey
    obtain ⟨id, e, hmem, rfl⟩ := Store.mem_keys_iff.mp hkey
    obtain ⟨s, hs, hdraws⟩ := (Store.traced_ofSet set).elements id e hmem
    exact ⟨s, hs, hdraws.key.symm⟩
  · rintro ⟨s, hs, rfl⟩
    obtain ⟨file, hfile, hs⟩ := List.mem_flatMap.mp hs
    have hkey := (Draft.underway_empty set).files (fun _ h => h) file hfile s hs
    rw [Store.keys, (Draft.sameVertices_ofSet set).1]
    exact hkey

end SchemaGraph

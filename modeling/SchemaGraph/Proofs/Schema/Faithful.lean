import SchemaGraph.Proofs.MajorVersion
import SchemaGraph.Proofs.Schema.Comments
import SchemaGraph.Proofs.Schema.FieldTypes
import SchemaGraph.Proofs.Schema.Nested
import SchemaGraph.Proofs.Schema.Resolve

/-!
# One faithful vertex for each declaration

The main result, `vertices_faithful`: the vertices of the graph of a set are, one
by one, what stands in the set (`FileSet.HasSite`), and each says what its
declaration says.  What a vertex is to say is stated on the schema alone
(`Site.Describes`):

* its full name joins the package, the names of the messages around it and its
  own name by dots, and its simple name is the declared one;
* its comment is the one that the file records for its source path, and its version
  the one that the segments of the package and the directories decide;
* the type and the shape of a field are those of the table of types
  (`FieldDecl.HasType`, `FieldSite.HasShape`).

Names are assumed to be free of dots and not empty, and full names to differ.
Edges are not described here.
-/

namespace SchemaGraph

/-! ## Names -/

/-- A declared name: not empty, and without dots. -/
def IsIdentifier (name : String) : Prop := name ≠ "" ∧ '.' ∉ name.toList

instance (name : String) : Decidable (IsIdentifier name) :=
  inferInstanceAs (Decidable (name ≠ "" ∧ '.' ∉ name.toList))

/-- The simple name of a declaration. -/
def Site.name : Site → String
  | .message m => m.decl.name
  | .field f => f.decl.name
  | .group g => g.name
  | .enum e => e.decl.name

/-- Every declared name is an identifier. -/
def FileSet.Identifiers (set : FileSet) : Prop := ∀ s ∈ set.sites, IsIdentifier s.name

instance (set : FileSet) : Decidable set.Identifiers :=
  inferInstanceAs (Decidable (∀ s ∈ set.sites, IsIdentifier s.name))

/-- The package of a file as the first part of a full name; the empty package is
no part. -/
def FileDecl.packageParts (file : FileDecl) : List String :=
  if file.package = "" then [] else [file.package]

section Names

variable {outer : List String} {name : String} {file : FileDecl}

theorem packageParts_ne_empty : ∀ part ∈ file.packageParts, part ≠ "" := by
  intro part hpart
  rw [FileDecl.packageParts] at hpart
  split at hpart
  · exact absurd hpart List.not_mem_nil
  · next hpackage =>
    rw [List.mem_singleton.mp hpart]
    exact hpackage

/-- A simple name in a scope that is named by its parts. -/
theorem qualify_join {parts : List String} (hparts : ∀ part ∈ parts, part ≠ "") :
    qualify (Text.join "." parts) name = Text.join "." (parts ++ [name]) := by
  by_cases hnil : parts = []
  · subst hnil
    simp [qualify, Text.join]
  · rw [qualify, if_neg (Text.join_ne_empty hnil hparts), Text.join_append_singleton hnil]

/-- The full name of a scope joins the package and the names around. -/
theorem scopeName_eq_join (houter : ∀ n ∈ outer, n ≠ "") :
    scopeName file outer = Text.join "." (file.packageParts ++ outer) := by
  induction outer using List.reverseRecOn with
  | nil =>
      rw [List.append_nil, FileDecl.packageParts]
      split
      · next hpackage => exact hpackage
      · simp [scopeName, Text.join]
  | append_singleton names n ih =>
      have hnames : ∀ n ∈ names, n ≠ "" := fun n hn => houter n (List.mem_append_left _ hn)
      have hparts : ∀ part ∈ file.packageParts ++ names, part ≠ "" := fun part hpart =>
        (List.mem_append.mp hpart).elim (packageParts_ne_empty part) (hnames part)
      rw [← List.append_assoc, ← qualify_join hparts, ← ih hnames, scopeName, List.foldl_append]
      rfl

theorem lastSegment_qualify {scope : String} (hname : '.' ∉ name.toList) :
    Text.lastSegment '.' (qualify scope name) = name := by
  rw [qualify]
  split
  · exact Text.lastSegment_of_notMem hname
  · exact Text.lastSegment_append hname

end Names

/-- A message counts as the entry of a map if it is flagged. -/
theorem FileSet.UniqueKeys.mapEntries_contains {set : FileSet} (h : set.UniqueKeys)
    {m : MessageSite} (hm : m ∈ set.messageSites) :
    set.mapEntries.contains m.fullName = m.decl.isMapEntry := by
  rw [Bool.eq_iff_iff, List.contains_iff_mem, mem_mapEntries_iff]
  constructor
  · rintro ⟨m', hm', hentry, hname⟩
    rwa [← List.inj_on_of_nodup_map h.messages hm' hm hname]
  · exact fun hentry => ⟨m, hm, hentry, rfl⟩

/-! ## What a vertex is to say -/

/-- What every vertex says of its declaration, given the file, the names of the
messages around it, its own name and its source path. -/
structure Element.Declares (home : FileDecl) (outer : List String) (simple : String)
    (path : List Int32) (e : Element) : Prop where
  fullName : e.fullName = Text.join "." (home.packageParts ++ outer ++ [simple])
  name : e.name = simple
  file : e.file = home.name
  package : e.package = home.package
  parent : e.parent =
    if outer = [] then none else some (Text.join "." (home.packageParts ++ outer))
  majorVersion : home.HasVersion e.majorVersion
  comment : Recorded home.locations path e.comment
  options : e.options = []

/-- A message says which fields, messages and enums are declared in it, and
whether it is flagged as the entry of a map. -/
structure MessageSite.Describes (m : MessageSite) (e : Element) : Prop where
  declares : e.Declares m.file m.outer m.decl.name m.path
  pathType : ∃ tag, IsMessageTag e.fullName tag ∧ e.pathType = "[type=" ++ tag ++ "]"
  dataType : e.dataType = .record
  info : e.info = .message
    { fields := m.decl.fields.map fun f => f.name
      nestedMessages := m.decl.nested.map fun n => e.fullName ++ "." ++ n.name
      nestedEnums := m.decl.enums.map fun n => e.fullName ++ "." ++ n.name
      isMapEntry := m.decl.isMapEntry }

/-- A field says what its declaration says, and which shape its data have. -/
structure FieldSite.Describes (set : FileSet) (f : FieldSite) (e : Element) : Prop where
  declares : e.Declares f.message.file f.message.inner f.decl.name
    (f.message.path ++ [2, Int32.ofNat f.position])
  shape : f.HasShape set e.pathType e.dataType
  info : ∃ nativeType tag dataType isMessageType, f.decl.HasType nativeType tag dataType ∧
    (isMessageType = true ↔ f.decl.HoldsMessage) ∧ e.info = .field
      { number := f.decl.number
        label := f.decl.label
        nativeType := nativeType
        isMessageType := isMessageType
        oneOf := f.group?.map GroupSite.name
        jsonName := f.decl.jsonName }

/-- A oneof group says which fields are its members, in the order in which they
are declared. -/
structure GroupSite.Describes (g : GroupSite) (e : Element) : Prop where
  declares : e.Declares g.message.file g.message.inner g.name
    (g.message.path ++ [8, Int32.ofNat g.position])
  pathType : e.pathType = "[type=union]"
  dataType : e.dataType = .union
  info : e.info = .oneOf
    ((g.message.decl.fields.filter fun f => f.isIn g.position).map fun f => f.name)

/-- An enum says which values it has. -/
structure EnumSite.Describes (s : EnumSite) (e : Element) : Prop where
  declares : e.Declares s.file s.outer s.decl.name s.path
  pathType : e.pathType = "[type=enum]"
  dataType : e.dataType = .enum
  info : e.info = .enum s.decl.values

/-- A vertex says what a declaration of a set says. -/
def Site.Describes (set : FileSet) : Site → Element → Prop
  | .message m, e => m.Describes e
  | .field f, e => f.Describes set e
  | .group g, e => g.Describes e
  | .enum s, e => s.Describes e

section Describes

variable {set : FileSet} (entries : List String)

/-- The element of a scope says what it should, whatever else is known of it. -/
theorem declares_element (file : FileDecl) {outer : List String} {simple : String}
    (pathType : String) (dataType : DataType) (path : List Int32) (info : ElementInfo)
    (houter : ∀ n ∈ outer, n ≠ "") (hsimple : IsIdentifier simple) :
    (Scope.element ⟨file, entries⟩ (qualify (scopeName file outer) simple) (parentName file outer)
      pathType dataType path info).Declares file outer simple path where
  fullName := by
    rw [scopeName_eq_join houter]
    refine qualify_join fun part hpart => ?_
    exact (List.mem_append.mp hpart).elim (packageParts_ne_empty part) (houter part)
  name := lastSegment_qualify hsimple.2
  file := rfl
  package := rfl
  parent := by
    rw [← scopeName_eq_join houter]
    rfl
  majorVersion := hasVersion_majorVersion file
  comment := recorded_commentAt file path
  options := rfl

mutual

/-- The names around a message are those given, or names of listed messages. -/
theorem outer_of_mem_sites (decl : MessageDecl) (file : FileDecl) (outer : List String)
    (path : List Int32) :
    ∀ m ∈ decl.sites file outer path, ∀ n ∈ m.outer,
      n ∈ outer ∨ ∃ m' ∈ decl.sites file outer path, m'.decl.name = n := by
  match decl with
  | ⟨name, fields, nested, enums, extensions, oneofs, isMapEntry⟩ =>
    intro m hm n hn
    rw [MessageDecl.sites] at hm ⊢
    rcases List.mem_cons.mp hm with rfl | hm
    · exact Or.inl hn
    · rcases outer_of_mem_nestedSites nested file (outer ++ [name]) path messageNested 0 m hm n hn
        with houter | ⟨m', hm', hname⟩
      · rcases List.mem_append.mp houter with houter | houter
        · exact Or.inl houter
        · exact Or.inr ⟨_, List.mem_cons_self, (List.mem_singleton.mp houter).symm⟩
      · exact Or.inr ⟨m', List.mem_cons_of_mem _ hm', hname⟩

/-- The names around several messages are those given, or names of listed messages. -/
theorem outer_of_mem_nestedSites (decls : List MessageDecl) (file : FileDecl)
    (outer : List String) (path : List Int32) (list : Int32) (position : Nat) :
    ∀ m ∈ nestedSites file outer path list position decls, ∀ n ∈ m.outer,
      n ∈ outer ∨ ∃ m' ∈ nestedSites file outer path list position decls, m'.decl.name = n := by
  match decls with
  | [] => exact fun m hm => absurd hm List.not_mem_nil
  | decl :: rest =>
    intro m hm n hn
    rw [nestedSites] at hm ⊢
    rcases List.mem_append.mp hm with hm | hm
    · rcases outer_of_mem_sites decl file outer (childPath path list position) m hm n hn
        with houter | ⟨m', hm', hname⟩
      · exact Or.inl houter
      · exact Or.inr ⟨m', List.mem_append_left _ hm', hname⟩
    · rcases outer_of_mem_nestedSites rest file outer path list (position + 1) m hm n hn
        with houter | ⟨m', hm', hname⟩
      · exact Or.inl houter
      · exact Or.inr ⟨m', List.mem_append_right _ hm', hname⟩

end

mutual

/-- The messages of a message are of its file. -/
theorem file_of_mem_sites (decl : MessageDecl) (file : FileDecl) (outer : List String)
    (path : List Int32) : ∀ m ∈ decl.sites file outer path, m.file = file := by
  match decl with
  | ⟨name, fields, nested, enums, extensions, oneofs, isMapEntry⟩ =>
    intro m hm
    rw [MessageDecl.sites] at hm
    rcases List.mem_cons.mp hm with rfl | hm
    · rfl
    · exact file_of_mem_nestedSites nested file (outer ++ [name]) path messageNested 0 m hm

/-- The messages of several messages are of their file. -/
theorem file_of_mem_nestedSites (decls : List MessageDecl) (file : FileDecl) (outer : List String)
    (path : List Int32) (list : Int32) (position : Nat) :
    ∀ m ∈ nestedSites file outer path list position decls, m.file = file := by
  match decls with
  | [] => exact fun m hm => absurd hm List.not_mem_nil
  | decl :: rest =>
    intro m hm
    rw [nestedSites] at hm
    rcases List.mem_append.mp hm with hm | hm
    · exact file_of_mem_sites decl file outer (childPath path list position) m hm
    · exact file_of_mem_nestedSites rest file outer path list (position + 1) m hm

end

theorem FileSet.file_mem_files {m : MessageSite} (hm : m ∈ set.messageSites) :
    m.file ∈ set.files := by
  obtain ⟨file, hfile, hm⟩ := List.mem_flatMap.mp hm
  rwa [file_of_mem_nestedSites file.messages file [] [] fileMessages 0 m hm]

theorem FileSet.file_mem_files_of_enum {s : EnumSite} (hs : s ∈ set.enumSites) :
    s.file ∈ set.files := by
  obtain ⟨file, hfile, hs⟩ := List.mem_flatMap.mp hs
  rcases List.mem_append.mp hs with hs | hs
  · obtain ⟨entry, -, rfl⟩ := List.mem_map.mp hs
    exact hfile
  · obtain ⟨m, hm, hs⟩ := List.mem_flatMap.mp hs
    obtain ⟨entry, -, rfl⟩ := List.mem_map.mp hs
    exact file_mem_files (List.mem_flatMap.mpr ⟨file, hfile, hm⟩)

/-- What holds of all declared names holds of those around a message, and its own. -/
theorem FileSet.forall_inner {p : String → Prop} (h : ∀ s ∈ set.sites, p s.name) {m : MessageSite}
    (hm : m ∈ set.messageSites) : ∀ n ∈ m.inner, p n := by
  have hmessage {m : MessageSite} (hm : m ∈ set.messageSites) : p m.decl.name :=
    h (.message m) (message_mem_sites.mpr hm)
  intro n hn
  rcases List.mem_append.mp hn with hn | hn
  · obtain ⟨file, hfile, hmfile⟩ := List.mem_flatMap.mp hm
    rcases outer_of_mem_nestedSites file.messages file [] [] fileMessages 0 m hmfile n hn
      with houter | ⟨m', hm', rfl⟩
    · exact absurd houter List.not_mem_nil
    · exact hmessage (List.mem_flatMap.mpr ⟨file, hfile, hm'⟩)
  · rw [List.mem_singleton.mp hn]
    exact hmessage hm

/-- What holds of all declared names holds of those around an enum. -/
theorem FileSet.forall_outer_enum {p : String → Prop} (h : ∀ s ∈ set.sites, p s.name)
    {s : EnumSite} (hs : s ∈ set.enumSites) : ∀ n ∈ s.outer, p n := by
  obtain ⟨file, hfile, hs⟩ := List.mem_flatMap.mp hs
  rcases List.mem_append.mp hs with hs | hs
  · obtain ⟨entry, -, rfl⟩ := List.mem_map.mp hs
    exact fun n hn => absurd hn List.not_mem_nil
  · obtain ⟨m, hm, hs⟩ := List.mem_flatMap.mp hs
    obtain ⟨entry, -, rfl⟩ := List.mem_map.mp hs
    exact forall_inner h (List.mem_flatMap.mpr ⟨file, hfile, hm⟩)

/-! ## Each vertex says what it should -/

variable {m : MessageSite}

theorem message_describes (h : set.UniqueKeys) (hids : set.Identifiers)
    (hm : m ∈ set.messageSites) : m.Describes (m.element set.mapEntries) := by
  have hinner := FileSet.forall_inner hids hm
  have hname : m.fullName ≠ "" := by
    rw [← m.scopeName_inner, scopeName_eq_join fun n hn => (hinner n hn).1]
    refine Text.join_ne_empty (by simp [MessageSite.inner]) fun part hpart => ?_
    exact (List.mem_append.mp hpart).elim (packageParts_ne_empty part) fun hn => (hinner part hn).1
  have hqualify (name : String) : qualify m.fullName name = m.fullName ++ "." ++ name :=
    if_neg hname
  constructor
  · exact declares_element _ m.file _ _ _ _
      (fun n hn => (hinner n (List.mem_append_left _ hn)).1)
      (hinner _ (List.mem_append_right _ (List.mem_singleton_self _)))
  · exact ⟨messageTag m.fullName, isMessageTag_iff.mpr rfl, rfl⟩
  · rfl
  · show ElementInfo.message _ = ElementInfo.message _
    simp only [h.mapEntries_contains hm, hqualify]
    rfl

/-- What a message contains is declared in the scope that it opens. -/
theorem declares_inside (hids : set.Identifiers) (hm : m ∈ set.messageSites) {simple : String}
    (pathType : String) (dataType : DataType) (path : List Int32) (info : ElementInfo)
    (hsimple : IsIdentifier simple) :
    (Scope.element ⟨m.file, entries⟩ (qualify m.fullName simple) (some m.fullName) pathType
      dataType path info).Declares m.file m.inner simple path := by
  have hdeclares := declares_element entries m.file pathType dataType path info
    (fun n hn => (FileSet.forall_inner hids hm n hn).1) hsimple
  rwa [MessageSite.scopeName_inner, MessageSite.parentName_inner] at hdeclares

theorem field_describes (hids : set.Identifiers) {f : FieldSite} (hf : f ∈ set.fieldSites) :
    f.Describes set (f.element set.mapEntries) := by
  have hm := (FileSet.mem_fieldSites_iff.mp hf).1
  constructor
  · exact declares_inside _ hids hm _ _ _ _ (hids (.field f) (FileSet.field_mem_sites.mpr hf))
  · exact FieldSite.hasShape_iff.mpr ⟨rfl, rfl⟩
  · exact ⟨f.decl.nativeType, f.decl.tag, f.decl.type.dataType, f.decl.type.isMessage,
      FieldDecl.hasType_iff.mpr ⟨rfl, rfl, rfl⟩, FieldDecl.holdsMessage_iff.symm, rfl⟩

theorem group_describes (hids : set.Identifiers) {g : GroupSite} (hg : g ∈ set.groupSites) :
    g.Describes (g.element set.mapEntries) := by
  have hm := (FileSet.mem_groupSites_iff.mp hg).1
  constructor
  · -- What is common to all vertices does not depend on the members.
    have hdeclares := declares_inside set.mapEntries hids hm unionTag .union
      (childPath g.message.path messageOneofs g.position) (.oneOf [])
      (hids (.group g) (FileSet.group_mem_sites.mpr hg))
    exact ⟨hdeclares.fullName, hdeclares.name, hdeclares.file, hdeclares.package, hdeclares.parent,
      hdeclares.majorVersion, hdeclares.comment, hdeclares.options⟩
  · rfl
  · rfl
  · show ElementInfo.oneOf g.members = _
    rw [GroupSite.members, GroupSite.namesOf, MessageSite.fields, List.filter_map, List.map_map]
    have hfields := congrArg (List.filter fun f => f.isIn g.position)
      (List.zipIdx_map_fst 0 g.message.decl.fields)
    rw [List.filter_map] at hfields
    rw [← hfields, List.map_map]
    rfl

theorem enum_describes (hids : set.Identifiers) {s : EnumSite} (hs : s ∈ set.enumSites) :
    s.Describes (s.element set.mapEntries) := by
  constructor
  · have hdeclares := declares_element set.mapEntries s.file enumTag .enum s.path
      (.enum s.decl.values) (fun n hn => (FileSet.forall_outer_enum hids hs n hn).1)
      (hids (.enum s) (FileSet.enum_mem_sites.mpr hs))
    rw [← parentName_getD] at hdeclares
    exact hdeclares
  · rfl
  · rfl
  · rfl

/-- The vertices of the graph of a set are what stands in the set, one by one, and each
says what its declaration says. -/
theorem vertices_faithful (h : set.UniqueNames) (hids : set.Identifiers) :
    (∀ s, s ∈ set.sites ↔ set.HasSite s) ∧
      ∃ vertices, ((Draft.ofSet set).store.elements.map Prod.snd).Perm vertices ∧
        List.Forall₂ (Site.Describes set) set.sites vertices := by
  refine ⟨fun s => FileSet.mem_sites_iff_hasSite, set.elements,
    (holds_ofSet h.uniqueKeys).elements, ?_⟩
  rw [FileSet.elements, List.forall₂_map_right_iff, List.forall₂_same]
  intro s hs
  cases s with
  | message m => exact message_describes h.uniqueKeys hids (FileSet.message_mem_sites.mp hs)
  | field f => exact field_describes hids (FileSet.field_mem_sites.mp hs)
  | group g => exact group_describes hids (FileSet.group_mem_sites.mp hs)
  | enum e => exact enum_describes hids (FileSet.enum_mem_sites.mp hs)

end Describes

/-- A schema with a comment for every kind of declaration, most of them nested. -/
def librarySet : FileSet where
  files :=
    [{ name := "lib/v3/book.proto"
       package := "lib"
       enums := [{ name := "Kind", values := [⟨"NOVEL", 0⟩] }]
       messages :=
         [{ name := "Book"
            fields :=
              [{ name := "sequel", number := 1, type := .message, typeName := some ".lib.Book"
                 oneofIndex := some 0 },
               { name := "pages", number := 2, label := .repeated, type := .sint64 },
               { name := "tags", number := 3, label := .repeated, type := .message
                 typeName := some "lib.Book.TagsEntry" },
               { name := "kind", number := 4, label := .required, type := .enum
                 typeName := some ".lib.Kind" }]
            nested :=
              [{ name := "TagsEntry"
                 fields := [{ name := "value", number := 2, type := .bool }]
                 nested := []
                 enums := []
                 extensions := []
                 oneofs := []
                 isMapEntry := true }]
            enums := [{ name := "State", values := [⟨"LENT", 0⟩, ⟨"HERE", 1⟩] }]
            extensions := []
            oneofs := ["origin"]
            isMapEntry := false }]
       locations :=
         [{ path := [5, 0], leading := some " A kind.\n", trailing := some "Not this." },
          { path := [4, 0], leading := some "", trailing := some "Not this." },
          { path := [4, 0, 2, 1], leading := none, trailing := some " Counted.\n" },
          { path := [4, 0, 8, 0], leading := some "Where it is from.", trailing := none },
          { path := [4, 0, 3, 0], leading := some "An entry.", trailing := none },
          { path := [4, 0, 3, 0, 2, 0], leading := some "A tag.", trailing := none },
          { path := [4, 0, 4, 0], leading := some "Before.", trailing := none },
          { path := [4, 0, 4, 0], leading := some "Last.", trailing := none },
          { path := [4, 0, 4, 0], leading := some " ", trailing := some "Not this." }] }]

/-- The declarations of the library have their vertices: identity, message around and comment
of each, its path type, kind of data and native type, and the file of all. -/
theorem vertices_faithful_librarySet :
    librarySet.UniqueNames ∧ librarySet.Identifiers ∧
      ((∀ s, s ∈ librarySet.sites ↔ librarySet.HasSite s) ∧
        ∃ vertices, ((Draft.ofSet librarySet).store.elements.map Prod.snd).Perm vertices ∧
          List.Forall₂ (Site.Describes librarySet) librarySet.sites vertices) ∧
      ((Draft.ofSet librarySet).store.elements.map fun entry =>
          (entry.2.key, entry.2.parent, entry.2.comment)) =
        [(⟨.enum, "lib.Kind"⟩, none, "A kind."),
         (⟨.message, "lib.Book"⟩, none, ""),
         (⟨.message, "lib.Book.TagsEntry"⟩, some "lib.Book", "An entry."),
         (⟨.field, "lib.Book.TagsEntry.value"⟩, some "lib.Book.TagsEntry", "A tag."),
         (⟨.enum, "lib.Book.State"⟩, some "lib.Book", "Last."),
         (⟨.field, "lib.Book.sequel"⟩, some "lib.Book", ""),
         (⟨.oneOf, "lib.Book.origin"⟩, some "lib.Book", "Where it is from."),
         (⟨.field, "lib.Book.pages"⟩, some "lib.Book", "Counted."),
         (⟨.field, "lib.Book.tags"⟩, some "lib.Book", ""),
         (⟨.field, "lib.Book.kind"⟩, some "lib.Book", "")] ∧
      ((Draft.ofSet librarySet).store.elements.map fun entry =>
          (entry.2.name, entry.2.pathType, entry.2.dataType, entry.2.nativeType)) =
        [("Kind", "[type=enum]", .enum, none),
         ("Book", "[type=lib_Book]", .record, none),
         ("TagsEntry", "[type=lib_Book_TagsEntry]", .record, none),
         ("value", "[type=boolean]", .boolean, some "bool"),
         ("State", "[type=enum]", .enum, none),
         ("sequel", "[type=lib_Book]", .record, some "lib.Book"),
         ("origin", "[type=union]", .union, none),
         ("pages", "[type=array].[type=long]", .array, some "sint64"),
         ("tags", "[type=map].[type=lib_Book_TagsEntry]", .map, some "lib.Book.TagsEntry"),
         ("kind", "[type=enum]", .enum, some "lib.Kind")] ∧
      ∀ entry ∈ (Draft.ofSet librarySet).store.elements,
        entry.2.file = "lib/v3/book.proto" ∧ entry.2.package = "lib" ∧
          entry.2.majorVersion = 3 := by
  have hnames : librarySet.UniqueNames := by decide +kernel
  have hids : librarySet.Identifiers := by decide +kernel
  exact ⟨hnames, hids, vertices_faithful hnames hids, by decide +kernel, by decide +kernel,
    by decide +kernel⟩

end SchemaGraph

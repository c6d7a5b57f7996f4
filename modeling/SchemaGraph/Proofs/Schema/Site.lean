import Mathlib.Data.List.Nodup
import SchemaGraph.Graph.Patch
import SchemaGraph.Graph.Declaration

/-!
# Where a schema declares what

The declarations of a descriptor set as they stand in its files, without any
graph: every message with the names of the messages around it and its source
path, every field and oneof group with its message, every enum.

* `FileSet.sites` lists them, each once: messages at any depth, their fields and
  enums, the enums of files, and the groups with at least one member;
* `Site.owner?` says to which group or message a declaration belongs;
* `Site.element` is the vertex that a graph is to have for a declaration.

A oneof group no field belongs to, such as the one a compiler adds for an
explicitly optional field, is not listed.
-/

namespace SchemaGraph

/-- A message where it is declared. -/
structure MessageSite where
  file : FileDecl
  /-- The names of the messages around it, outermost first. -/
  outer : List String
  path : List Int32
  decl : MessageDecl

/-- A field of a message. -/
structure FieldSite where
  message : MessageSite
  position : Nat
  decl : FieldDecl

/-- A oneof group of a message. -/
structure GroupSite where
  message : MessageSite
  position : Nat
  name : String

/-- An enum where it is declared. -/
structure EnumSite where
  file : FileDecl
  /-- The names of the messages around it, outermost first. -/
  outer : List String
  path : List Int32
  decl : EnumDecl

/-- A declaration where it stands. -/
inductive Site where
  | message (m : MessageSite)
  | field (f : FieldSite)
  | group (g : GroupSite)
  | enum (e : EnumSite)

/-- The full name of a package with some messages in it, one inside the other. -/
def scopeName (file : FileDecl) (outer : List String) : String :=
  outer.foldl qualify file.package

/-- The full name of the innermost message around a declaration. -/
def parentName (file : FileDecl) (outer : List String) : Option String :=
  if outer = [] then none else some (scopeName file outer)

theorem parentName_getD (file : FileDecl) (outer : List String) :
    (parentName file outer).getD file.package = scopeName file outer := by
  cases outer with
  | nil => rfl
  | cons name rest => rfl

/-- Whether a field is a member of the group at a position; one that is
explicitly optional is in none. -/
def FieldDecl.isIn (position : Nat) (f : FieldDecl) : Bool :=
  !f.proto3Optional && f.oneofIndex.any fun i => i.toInt == (position : Int)

namespace MessageSite

/-- The full name of a message. -/
def fullName (m : MessageSite) : String := qualify (scopeName m.file m.outer) m.decl.name

/-- The identity of a message. -/
def key (m : MessageSite) : ElementKey := ⟨.message, m.fullName⟩

/-- The names around what the message declares. -/
def inner (m : MessageSite) : List String := m.outer ++ [m.decl.name]

theorem scopeName_inner (m : MessageSite) : scopeName m.file m.inner = m.fullName := by
  simp [inner, scopeName, fullName]

theorem parentName_inner (m : MessageSite) : parentName m.file m.inner = some m.fullName := by
  rw [parentName, if_neg (by simp [inner]), scopeName_inner]

/-- The fields of a message. -/
def fields (m : MessageSite) : List FieldSite :=
  m.decl.fields.zipIdx.map fun entry => ⟨m, entry.2, entry.1⟩

/-- The oneof groups of a message, those without members included. -/
def declaredGroups (m : MessageSite) : List GroupSite :=
  m.decl.oneofs.zipIdx.map fun entry => ⟨m, entry.2, entry.1⟩

/-- The oneof groups that some of the fields belong to. -/
def groupsOf (m : MessageSite) (fields : List FieldSite) : List GroupSite :=
  m.declaredGroups.filter fun g => fields.any fun f => f.decl.isIn g.position

/-- The oneof groups with members. -/
def groups (m : MessageSite) : List GroupSite := m.groupsOf m.fields

/-- The enums inside a message. -/
def enums (m : MessageSite) : List EnumSite :=
  m.decl.enums.zipIdx.map fun entry =>
    ⟨m.file, m.inner, childPath m.path messageEnums entry.2, entry.1⟩

end MessageSite

namespace FieldSite

/-- The full name of a field. -/
def fullName (f : FieldSite) : String := qualify f.message.fullName f.decl.name

/-- The identity of a field. -/
def key (f : FieldSite) : ElementKey := ⟨.field, f.fullName⟩

/-- The group that a field is a member of. -/
def group? (f : FieldSite) : Option GroupSite :=
  f.message.declaredGroups.find? fun g => f.decl.isIn g.position

end FieldSite

namespace GroupSite

/-- The full name of a group. -/
def fullName (g : GroupSite) : String := qualify g.message.fullName g.name

/-- The identity of a group. -/
def key (g : GroupSite) : ElementKey := ⟨.oneOf, g.fullName⟩

/-- The names of those of the fields that are members of a group. -/
def namesOf (g : GroupSite) (fields : List FieldSite) : List String :=
  (fields.filter fun f => f.decl.isIn g.position).map fun f => f.decl.name

/-- The names of the members of a group, in order. -/
def members (g : GroupSite) : List String := g.namesOf g.message.fields

end GroupSite

namespace EnumSite

/-- The full name of an enum. -/
def fullName (e : EnumSite) : String := qualify (scopeName e.file e.outer) e.decl.name

/-- The identity of an enum. -/
def key (e : EnumSite) : ElementKey := ⟨.enum, e.fullName⟩

end EnumSite

/-- Of some fields of a message those outside groups, and the groups of the others. -/
def MessageSite.ownedOf (m : MessageSite) (fields : List FieldSite) : List Site :=
  (fields.filter fun f => f.group?.isNone).map Site.field ++ (m.groupsOf fields).map Site.group

/-- What a message directly owns: its fields outside groups, and its groups. -/
def MessageSite.owned (m : MessageSite) : List Site := m.ownedOf m.fields

/-- A message and what it declares, other messages left out. -/
def MessageSite.sites (m : MessageSite) : List Site :=
  .message m :: (m.enums.map Site.enum ++ (m.fields.map Site.field ++ m.groups.map Site.group))

/-! ## The sites of a set -/

mutual

/-- A message and the messages inside it, at any depth. -/
def MessageDecl.sites (file : FileDecl) (outer : List String) (path : List Int32) :
    MessageDecl → List MessageSite
  | ⟨name, fields, nested, enums, extensions, oneofs, isMapEntry⟩ =>
    ⟨file, outer, path, ⟨name, fields, nested, enums, extensions, oneofs, isMapEntry⟩⟩ ::
      nestedSites file (outer ++ [name]) path messageNested 0 nested

/-- Messages listed under a field number from a position on, and the messages
inside them. -/
def nestedSites (file : FileDecl) (outer : List String) (path : List Int32) (list : Int32)
    (position : Nat) : List MessageDecl → List MessageSite
  | [] => []
  | m :: rest =>
    m.sites file outer (childPath path list position) ++
      nestedSites file outer path list (position + 1) rest

end

/-- The messages of a file, at any depth. -/
def FileDecl.messageSites (file : FileDecl) : List MessageSite :=
  nestedSites file [] [] fileMessages 0 file.messages

/-- The enums of a file outside messages. -/
def FileDecl.enumSites (file : FileDecl) : List EnumSite :=
  file.enums.zipIdx.map fun entry => ⟨file, [], childPath [] fileEnums entry.2, entry.1⟩

/-- What a file declares. -/
def FileDecl.sites (file : FileDecl) : List Site :=
  file.enumSites.map Site.enum ++ file.messageSites.flatMap MessageSite.sites

namespace FileSet

/-- What a set declares. -/
def sites (set : FileSet) : List Site := set.files.flatMap FileDecl.sites

/-- The messages of a set. -/
def messageSites (set : FileSet) : List MessageSite := set.files.flatMap FileDecl.messageSites

/-- The fields of a set. -/
def fieldSites (set : FileSet) : List FieldSite := set.messageSites.flatMap MessageSite.fields

/-- The oneof groups of a set that have members. -/
def groupSites (set : FileSet) : List GroupSite := set.messageSites.flatMap MessageSite.groups

/-- The enums of a set. -/
def enumSites (set : FileSet) : List EnumSite :=
  set.files.flatMap fun file => file.enumSites ++ file.messageSites.flatMap MessageSite.enums

end FileSet

namespace Site

/-- The full name of a declaration. -/
def fullName : Site → String
  | .message m => m.fullName
  | .field f => f.fullName
  | .group g => g.fullName
  | .enum e => e.fullName

/-- The identity of a declaration. -/
def key : Site → ElementKey
  | .message m => m.key
  | .field f => f.key
  | .group g => g.key
  | .enum e => e.key

theorem key_fullName (s : Site) : s.key.fullName = s.fullName := by
  cases s <;> rfl

/-! Which declaration has an identity of a kind. -/

theorem exists_message {s : Site} (hkind : s.key.kind = .message) : ∃ m, s = .message m := by
  cases s with
  | message m => exact ⟨m, rfl⟩
  | field f => cases hkind
  | group g => cases hkind
  | enum e => cases hkind

theorem exists_field {s : Site} (hkind : s.key.kind = .field) : ∃ f, s = .field f := by
  cases s with
  | field f => exact ⟨f, rfl⟩
  | message m => cases hkind
  | group g => cases hkind
  | enum e => cases hkind

theorem exists_group {s : Site} (hkind : s.key.kind = .oneOf) : ∃ g, s = .group g := by
  cases s with
  | group g => exact ⟨g, rfl⟩
  | message m => cases hkind
  | field f => cases hkind
  | enum e => cases hkind

theorem exists_enum {s : Site} (hkind : s.key.kind = .enum) : ∃ e, s = .enum e := by
  cases s with
  | enum e => exact ⟨e, rfl⟩
  | message m => cases hkind
  | field f => cases hkind
  | group g => cases hkind

/-- The group or the message that a field or a group directly belongs to. -/
def owner? : Site → Option Site
  | .message _ => none
  | .field f =>
    match f.group? with
    | some g => some (.group g)
    | none => some (.message f.message)
  | .group g => some (.message g.message)
  | .enum _ => none

end Site

/-- No two declarations of a set share a full name. -/
def FileSet.UniqueNames (set : FileSet) : Prop := (set.sites.map Site.fullName).Nodup

/-- No two declarations of a set of the same kind share a full name. -/
def FileSet.UniqueKeys (set : FileSet) : Prop := (set.sites.map Site.key).Nodup

instance (set : FileSet) : Decidable set.UniqueNames :=
  inferInstanceAs (Decidable (set.sites.map Site.fullName).Nodup)

theorem FileSet.UniqueNames.uniqueKeys {set : FileSet} (h : set.UniqueNames) :
    set.UniqueKeys := by
  refine List.Nodup.of_map ElementKey.fullName ?_
  rw [List.map_map]
  simp only [Function.comp_def, Site.key_fullName]
  exact h

/-! ## Membership -/

section Membership

variable {m : MessageSite} {f : FieldSite} {g : GroupSite}

theorem MessageSite.message_of_mem_fields (hf : f ∈ m.fields) : f.message = m := by
  obtain ⟨entry, -, rfl⟩ := List.mem_map.mp hf
  rfl

theorem MessageSite.message_of_mem_declaredGroups (hg : g ∈ m.declaredGroups) :
    g.message = m := by
  obtain ⟨entry, -, rfl⟩ := List.mem_map.mp hg
  rfl

theorem MessageSite.mem_groups_iff :
    g ∈ m.groups ↔ g ∈ m.declaredGroups ∧ ∃ f ∈ m.fields, f.decl.isIn g.position := by
  rw [groups, groupsOf, List.mem_filter, List.any_eq_true]

theorem MessageSite.message_of_mem_groups (hg : g ∈ m.groups) : g.message = m :=
  message_of_mem_declaredGroups (mem_groups_iff.mp hg).1

/-- Declared groups differ in their positions. -/
theorem MessageSite.nodup_positions (m : MessageSite) :
    (m.declaredGroups.map GroupSite.position).Nodup := by
  rw [declaredGroups, List.map_map]
  have hpositions : m.decl.oneofs.zipIdx.map Prod.snd = List.range' 0 m.decl.oneofs.length :=
    List.zipIdx_map_snd 0 m.decl.oneofs
  simpa only [Function.comp_def, hpositions] using List.nodup_range'

theorem MessageSite.eq_of_position {g' : GroupSite} (hg : g ∈ m.declaredGroups)
    (hg' : g' ∈ m.declaredGroups) (hposition : g.position = g'.position) : g = g' :=
  List.inj_on_of_nodup_map m.nodup_positions hg hg' hposition

/-- A field is in groups at one position only. -/
theorem FieldDecl.position_eq_of_isIn {f : FieldDecl} {i j : Nat} (hi : f.isIn i) (hj : f.isIn j) :
    i = j := by
  cases hindex : f.oneofIndex with
  | none => simp [isIn, hindex] at hi
  | some n =>
      simp only [isIn, hindex, Option.any_some, Bool.and_eq_true, beq_iff_eq] at hi hj
      exact Int.ofNat_inj.mp (hi.2.symm.trans hj.2)

/-- The group of a field is the declared one that it is in. -/
theorem FieldSite.group?_eq_some_iff :
    f.group? = some g ↔ g ∈ f.message.declaredGroups ∧ f.decl.isIn g.position := by
  have hfound {g' : GroupSite} (h : f.group? = some g') :
      g' ∈ f.message.declaredGroups ∧ f.decl.isIn g'.position :=
    ⟨List.mem_of_find?_eq_some h, by simpa using List.find?_some h⟩
  refine ⟨hfound, ?_⟩
  rintro ⟨hmem, hin⟩
  cases hgroup : f.group? with
  | none => exact absurd hin (List.find?_eq_none.mp hgroup g hmem)
  | some g' =>
      obtain ⟨hmem', hin'⟩ := hfound hgroup
      rw [MessageSite.eq_of_position hmem' hmem (FieldDecl.position_eq_of_isIn hin' hin)]

theorem FieldSite.group?_eq_none_iff :
    f.group? = none ↔ ∀ g ∈ f.message.declaredGroups, f.decl.isIn g.position = false := by
  simp [FieldSite.group?]

/-- The group of a field is listed. -/
theorem FieldSite.group_mem_groups (hf : f ∈ m.fields) (hgroup : f.group? = some g) :
    g ∈ m.groups := by
  obtain ⟨hmem, hin⟩ := group?_eq_some_iff.mp hgroup
  rw [MessageSite.message_of_mem_fields hf] at hmem
  exact MessageSite.mem_groups_iff.mpr ⟨hmem, f, hf, hin⟩

variable {set : FileSet} {e : EnumSite}

theorem MessageSite.message_mem_sites {m' : MessageSite} :
    Site.message m' ∈ m.sites ↔ m' = m := by
  simp [sites]

theorem MessageSite.field_mem_sites : Site.field f ∈ m.sites ↔ f ∈ m.fields := by
  simp [sites]

theorem MessageSite.group_mem_sites : Site.group g ∈ m.sites ↔ g ∈ m.groups := by
  simp [sites]

theorem MessageSite.enum_mem_sites : Site.enum e ∈ m.sites ↔ e ∈ m.enums := by
  simp [sites]

/-- What a set declares is an enum of a file or lies with some message. -/
theorem FileSet.mem_sites_iff {s : Site} :
    s ∈ set.sites ↔ (∃ file ∈ set.files, ∃ e ∈ file.enumSites, Site.enum e = s) ∨
      ∃ m ∈ set.messageSites, s ∈ m.sites := by
  simp only [sites, FileDecl.sites, messageSites, List.mem_flatMap, List.mem_append, List.mem_map]
  constructor
  · rintro ⟨file, hfile, ⟨e, he, rfl⟩ | ⟨m, hm, hs⟩⟩
    · exact Or.inl ⟨file, hfile, e, he, rfl⟩
    · exact Or.inr ⟨m, ⟨file, hfile, hm⟩, hs⟩
  · rintro (⟨file, hfile, e, he, rfl⟩ | ⟨m, ⟨file, hfile, hm⟩, hs⟩)
    · exact ⟨file, hfile, Or.inl ⟨e, he, rfl⟩⟩
    · exact ⟨file, hfile, Or.inr ⟨m, hm, hs⟩⟩

theorem FileSet.message_mem_sites : Site.message m ∈ set.sites ↔ m ∈ set.messageSites := by
  simp [mem_sites_iff, MessageSite.message_mem_sites]

theorem FileSet.field_mem_sites : Site.field f ∈ set.sites ↔ f ∈ set.fieldSites := by
  simp [mem_sites_iff, MessageSite.field_mem_sites, fieldSites]

theorem FileSet.group_mem_sites : Site.group g ∈ set.sites ↔ g ∈ set.groupSites := by
  simp [mem_sites_iff, MessageSite.group_mem_sites, groupSites]

theorem FileSet.enum_mem_sites : Site.enum e ∈ set.sites ↔ e ∈ set.enumSites := by
  simp [sites, FileDecl.sites, enumSites, MessageSite.enum_mem_sites]

theorem FileSet.mem_fieldSites_iff :
    f ∈ set.fieldSites ↔ f.message ∈ set.messageSites ∧ f ∈ f.message.fields := by
  rw [fieldSites, List.mem_flatMap]
  constructor
  · rintro ⟨m, hm, hf⟩
    obtain rfl := MessageSite.message_of_mem_fields hf
    exact ⟨hm, hf⟩
  · rintro ⟨hm, hf⟩
    exact ⟨f.message, hm, hf⟩

theorem FileSet.mem_groupSites_iff :
    g ∈ set.groupSites ↔ g.message ∈ set.messageSites ∧ g ∈ g.message.groups := by
  rw [groupSites, List.mem_flatMap]
  constructor
  · rintro ⟨m, hm, hg⟩
    obtain rfl := MessageSite.message_of_mem_groups hg
    exact ⟨hm, hg⟩
  · rintro ⟨hm, hg⟩
    exact ⟨g.message, hm, hg⟩

end Membership

/-! ## The vertex of a declaration -/

section Elements

variable (entries : List String)

/-- The vertex of a message, given which messages are entries of maps. -/
def MessageSite.element (m : MessageSite) : Element :=
  m.decl.element ⟨m.file, entries⟩ m.fullName (parentName m.file m.outer) m.path

/-- The vertex of a field. -/
def FieldSite.element (f : FieldSite) : Element :=
  f.decl.element ⟨f.message.file, entries⟩ f.message.fullName (f.group?.map GroupSite.name)
    (childPath f.message.path messageFields f.position)

/-- The vertex of a group with given members. -/
def GroupSite.elementWith (members : List String) (g : GroupSite) : Element :=
  { groupElement ⟨g.message.file, entries⟩ g.message.fullName g.message.path g.position g.name with
    info := .oneOf members }

/-- The vertex of a group. -/
def GroupSite.element (g : GroupSite) : Element := g.elementWith entries g.members

/-- The vertex of an enum. -/
def EnumSite.element (e : EnumSite) : Element :=
  e.decl.element ⟨e.file, entries⟩ (parentName e.file e.outer) e.path

namespace Site

/-- The vertex of a declaration. -/
def element : Site → Element
  | .message m => m.element entries
  | .field f => f.element entries
  | .group g => g.element entries
  | .enum e => e.element entries

/-- The edge into a declaration from what it belongs to. -/
def ownerLink? (s : Site) : Option PendingLink :=
  s.owner?.map fun owner => ⟨owner.key, s.key, Edge.into (s.element entries)⟩

end Site

theorem EnumSite.key_element (e : EnumSite) : (e.element entries).key = e.key := by
  show ElementKey.mk _ (qualify ((parentName e.file e.outer).getD e.file.package) _) = e.key
  rw [parentName_getD]
  rfl

theorem Site.key_element (s : Site) : (s.element entries).key = s.key := by
  cases s with
  | message m => rfl
  | field f => rfl
  | group g => rfl
  | enum e => exact e.key_element entries

theorem Site.map_key_element (sites : List Site) :
    (sites.map (Site.element entries)).map Element.key = sites.map Site.key := by
  rw [List.map_map]
  exact List.map_congr_left fun s _ => s.key_element entries

end Elements

/-! ## A schema to look at -/

/-- A schema with each kind of declaration: a message that refers to itself, to a
message of a later file and to a wrapper, a oneof group, an explicitly optional
field, a map, and an enum inside a message. -/
def shopSet : FileSet where
  files :=
    [{ name := "google/protobuf/wrappers.proto"
       package := "google.protobuf"
       messages :=
         [{ name := "StringValue"
            fields := [{ name := "value", number := 1, type := .string }]
            nested := []
            enums := []
            extensions := []
            oneofs := []
            isMapEntry := false }] },
     { name := "shop/v2/cart.proto"
       package := "shop.v2"
       messages :=
         [{ name := "Cart"
            fields :=
              [{ name := "item", number := 1, type := .message, typeName := some ".shop.v2.Item"
                 oneofIndex := some 0 },
               { name := "note", number := 2, type := .message
                 typeName := some ".google.protobuf.StringValue", oneofIndex := some 0 },
               { name := "parent", number := 3, type := .message
                 typeName := some ".shop.v2.Cart" },
               { name := "coupon", number := 4, type := .string, oneofIndex := some 1
                 proto3Optional := true },
               { name := "counts", number := 5, label := .repeated, type := .message
                 typeName := some ".shop.v2.Cart.CountsEntry" },
               { name := "state", number := 6, type := .enum
                 typeName := some ".shop.v2.Cart.State" }]
            nested :=
              [{ name := "CountsEntry"
                 fields :=
                   [{ name := "key", number := 1, type := .string },
                    { name := "value", number := 2, type := .int32 }]
                 nested := []
                 enums := []
                 extensions := []
                 oneofs := []
                 isMapEntry := true }]
            enums := [{ name := "State", values := [⟨"OPEN", 0⟩, ⟨"PAID", 1⟩] }]
            extensions := []
            oneofs := ["content", "_coupon"]
            isMapEntry := false }]
       locations :=
         [{ path := [4, 0], leading := some " What is to be bought. ", trailing := none },
          { path := [4, 0, 2, 0], leading := none, trailing := some "One item." }] },
     { name := "shop/v2/item.proto"
       package := "shop.v2"
       messages :=
         [{ name := "Item"
            fields :=
              [{ name := "id", number := 1, type := .string },
               { name := "title", number := 2, type := .message
                 typeName := some ".google.protobuf.StringValue" }]
            nested := []
            enums := []
            extensions := []
            oneofs := []
            isMapEntry := false }] }]

example : shopSet.UniqueNames := by decide +kernel

end SchemaGraph

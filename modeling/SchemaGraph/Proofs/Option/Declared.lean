import SchemaGraph.Proofs.Option.Sealed
import SchemaGraph.Proofs.Schema.Nested

/-!
# What is declared, read in two ways

A descriptor set and its fields with options left as bytes declare the same identities
(`Sealed.declares_iff`): the same messages lie in each other under the same names, and
each lists the same fields, groups and enums.

Oneof groups count as declared here whether or not a field belongs to them.
-/

namespace SchemaGraph

open Wire

section Lists

variable {α β γ : Type} {R : α → β → Prop} {as : List α} {bs : List β}

theorem exists_of_forall₂_left (h : List.Forall₂ R as bs) {a : α} (ha : a ∈ as) :
    ∃ b ∈ bs, R a b := by
  induction h with
  | nil => exact absurd ha List.not_mem_nil
  | cons hab _ ih =>
      rcases List.mem_cons.mp ha with rfl | ha
      · exact ⟨_, List.mem_cons_self, hab⟩
      · obtain ⟨b, hb, hR⟩ := ih ha
        exact ⟨b, List.mem_cons_of_mem _ hb, hR⟩

theorem exists_of_forall₂_right (h : List.Forall₂ R as bs) {b : β} (hb : b ∈ bs) :
    ∃ a ∈ as, R a b :=
  exists_of_forall₂_left (R := flip R) h.flip hb

theorem exists_mem_iff_of_forall₂ {p : α → Prop} {q : β → Prop} (h : List.Forall₂ R as bs)
    (hpq : ∀ a b, R a b → (p a ↔ q b)) : (∃ a ∈ as, p a) ↔ ∃ b ∈ bs, q b := by
  constructor
  · rintro ⟨a, ha, hp⟩
    obtain ⟨b, hb, hR⟩ := exists_of_forall₂_left h ha
    exact ⟨b, hb, (hpq a b hR).mp hp⟩
  · rintro ⟨b, hb, hq⟩
    obtain ⟨a, ha, hR⟩ := exists_of_forall₂_right h hb
    exact ⟨a, ha, (hpq a b hR).mpr hq⟩

theorem map_eq_of_forall₂ {f : α → γ} {g : β → γ} (h : List.Forall₂ R as bs)
    (hfg : ∀ a b, R a b → f a = g b) : as.map f = bs.map g := by
  induction h with
  | nil => rfl
  | cons hab _ ih => rw [List.map_cons, List.map_cons, hfg _ _ hab, ih]

end Lists

/-- The names that a message lists of a kind of element. -/
def MessageDecl.names (m : MessageDecl) : ElementKind → List String
  | .message => m.nested.map (·.name)
  | .field => m.fields.map (·.name)
  | .oneOf => m.oneofs
  | .enum => m.enums.map (·.name)

/-! ## Identities of a set -/

theorem map_zipIdx_fst {α β : Type} (f : α → β) (as : List α) :
    (as.zipIdx.map fun entry => f entry.1) = as.map f := by
  conv_rhs => rw [← List.zipIdx_map_fst 0 as, List.map_map]
  rfl

namespace MessageSite

/-- The identities of what a message lists. -/
def listedKeys (m : MessageSite) (kind : ElementKind) : List ElementKey :=
  (m.decl.names kind).map fun name => ⟨kind, qualify m.fullName name⟩

variable (m : MessageSite)

theorem map_key_fields : m.fields.map FieldSite.key = m.listedKeys .field := by
  rw [fields, List.map_map, listedKeys, MessageDecl.names, List.map_map]
  exact map_zipIdx_fst
    (fun f : FieldDecl => ElementKey.mk .field (qualify m.fullName f.name)) m.decl.fields

theorem map_key_declaredGroups : m.declaredGroups.map GroupSite.key = m.listedKeys .oneOf := by
  rw [declaredGroups, List.map_map, listedKeys, MessageDecl.names]
  exact map_zipIdx_fst (fun name => ElementKey.mk .oneOf (qualify m.fullName name)) m.decl.oneofs

theorem map_key_enums : m.enums.map EnumSite.key = m.listedKeys .enum := by
  rw [enums, List.map_map, listedKeys, MessageDecl.names, List.map_map, ← scopeName_inner]
  exact map_zipIdx_fst
    (fun e : EnumDecl => ElementKey.mk .enum (qualify (scopeName m.file m.inner) e.name))
    m.decl.enums

end MessageSite

/-- The identities of the enums of a file outside messages. -/
def FileDecl.enumKeys (file : FileDecl) : List ElementKey :=
  file.enums.map fun e => ⟨.enum, qualify file.package e.name⟩

theorem FileDecl.map_key_enumSites (file : FileDecl) :
    file.enumSites.map EnumSite.key = file.enumKeys := by
  rw [enumSites, List.map_map]
  exact map_zipIdx_fst
    (fun e : EnumDecl => ElementKey.mk .enum (qualify file.package e.name)) file.enums

namespace FileSet

variable {set : FileSet} {key : ElementKey} {m : MessageSite}

/-- An identity that a set declares; groups need no members. -/
def Declares (set : FileSet) (key : ElementKey) : Prop :=
  (∃ s ∈ set.sites, s.key = key) ∨ ∃ m ∈ set.messageSites, ∃ g ∈ m.declaredGroups, g.key = key

theorem declares_of_site {s : Site} (hm : m ∈ set.messageSites) (hs : s ∈ m.sites) :
    set.Declares s.key :=
  Or.inl ⟨s, mem_sites_iff.mpr (Or.inr ⟨m, hm, hs⟩), rfl⟩

theorem declares_of_listed (hm : m ∈ set.messageSites) {kind : ElementKind}
    (hkind : kind ≠ .message) (hkey : key ∈ m.listedKeys kind) : set.Declares key := by
  cases kind with
  | message => exact absurd rfl hkind
  | field =>
      rw [← m.map_key_fields] at hkey
      obtain ⟨f, hf, rfl⟩ := List.mem_map.mp hkey
      exact declares_of_site hm (MessageSite.field_mem_sites.mpr hf)
  | oneOf =>
      rw [← m.map_key_declaredGroups] at hkey
      obtain ⟨g, hg, rfl⟩ := List.mem_map.mp hkey
      exact Or.inr ⟨m, hm, g, hg, rfl⟩
  | enum =>
      rw [← m.map_key_enums] at hkey
      obtain ⟨e, he, rfl⟩ := List.mem_map.mp hkey
      exact declares_of_site hm (MessageSite.enum_mem_sites.mpr he)

theorem listed_of_site {s : Site} (hs : s ∈ m.sites) :
    s.key = m.key ∨ ∃ kind, kind ≠ .message ∧ s.key ∈ m.listedKeys kind := by
  cases s with
  | message m' =>
      obtain rfl := MessageSite.message_mem_sites.mp hs
      exact Or.inl rfl
  | field f =>
      refine Or.inr ⟨.field, by decide, ?_⟩
      rw [← m.map_key_fields]
      exact List.mem_map_of_mem (MessageSite.field_mem_sites.mp hs)
  | group g =>
      refine Or.inr ⟨.oneOf, by decide, ?_⟩
      rw [← m.map_key_declaredGroups]
      exact List.mem_map_of_mem (MessageSite.mem_groups_iff.mp (MessageSite.group_mem_sites.mp hs)).1
  | enum e =>
      refine Or.inr ⟨.enum, by decide, ?_⟩
      rw [← m.map_key_enums]
      exact List.mem_map_of_mem (MessageSite.enum_mem_sites.mp hs)

/-- A set declares messages, what messages list, and the enums of files. -/
theorem declares_iff : set.Declares key ↔
    (∃ m ∈ set.messageSites, key = m.key ∨ ∃ kind, kind ≠ .message ∧ key ∈ m.listedKeys kind) ∨
      ∃ file ∈ set.files, key ∈ file.enumKeys := by
  constructor
  · rintro (⟨s, hs, rfl⟩ | ⟨m, hm, g, hg, rfl⟩)
    · rcases mem_sites_iff.mp hs with ⟨file, hfile, e, he, rfl⟩ | ⟨m, hm, hs⟩
      · refine Or.inr ⟨file, hfile, ?_⟩
        rw [← file.map_key_enumSites]
        exact List.mem_map_of_mem he
      · exact Or.inl ⟨m, hm, listed_of_site hs⟩
    · refine Or.inl ⟨m, hm, Or.inr ⟨.oneOf, by decide, ?_⟩⟩
      rw [← m.map_key_declaredGroups]
      exact List.mem_map_of_mem hg
  · rintro (⟨m, hm, rfl | ⟨kind, hkind, hkey⟩⟩ | ⟨file, hfile, hkey⟩)
    · exact declares_of_site hm List.mem_cons_self
    · exact declares_of_listed hm hkind hkey
    · rw [← file.map_key_enumSites] at hkey
      obtain ⟨e, he, rfl⟩ := List.mem_map.mp hkey
      exact Or.inl ⟨.enum e, mem_sites_iff.mpr (Or.inl ⟨file, hfile, e, he, rfl⟩), rfl⟩

end FileSet

/-! ## The same messages -/

namespace Sealed

variable {set m file fs : Fields} {scope : String} {key : ElementKey}

/-- The declaration that stands for the fields of a message with options left as bytes. -/
def Describes (m : Fields) (decl : MessageDecl) : Prop :=
  ∃ fs, narrowing.Keeps .message fs m ∧ Descriptor.messageDecl (.record fs) = decl

/-- The declaration that stands for the fields of a file with options left as bytes. -/
def DescribesFile (file : Fields) (decl : FileDecl) : Prop :=
  ∃ fs, narrowing.Keeps .file fs file ∧ Descriptor.fileDecl fs = decl

theorem nestedDecls_eq {number : Nat}
    (h : ∀ value, (number, value) ∈ fs → ∃ sub, value = .record sub) :
    Descriptor.nestedDecls number fs =
      (fs.records number).map fun sub => Descriptor.messageDecl (.record sub) := by
  induction fs with
  | nil => rfl
  | cons entry rest ih =>
      obtain ⟨n, value⟩ := entry
      have hrest := ih fun value hmem => h value (List.mem_cons_of_mem _ hmem)
      rw [Descriptor.nestedDecls]
      split
      · next hn =>
        subst hn
        obtain ⟨sub, rfl⟩ := h value List.mem_cons_self
        rw [hrest, Fields.records_cons_record, List.map_cons]
      · next hn => rw [hrest, Fields.records_cons_of_ne hn]

/-- The messages under a field. -/
theorem describes_nested {type : Descriptor.Kind} {number : Nat} {name : String} {kept : Fields}
    (h : narrowing.Keeps type fs kept)
    (hslot : grammar.slot type number = some (name, .record .message)) :
    List.Forall₂ Describes (kept.records number) (Descriptor.nestedDecls number fs) := by
  rw [nestedDecls_eq fun value hmem => h.exists_record hslot hmem]
  refine List.forall₂_map_right_iff.mpr (List.Forall₂.flip ?_)
  exact (h.records number hslot).imp fun sub kept hkeeps => ⟨sub, hkeeps, rfl⟩

theorem nameOf_eq {type : Descriptor.Kind} {kept : Fields} {name : String}
    (h : narrowing.Keeps type fs kept) (hname : type.numberOf "name" = 1)
    (hslot : grammar.slot type 1 = some (name, .text)) :
    nameOf type kept = (fs.text? 1).getD "" := by
  rw [nameOf, hname, h.text? 1 hslot]

theorem Describes.name {decl : MessageDecl} (h : Describes m decl) :
    decl.name = nameOf .message m := by
  obtain ⟨fs, hkeeps, rfl⟩ := h
  exact (nameOf_eq hkeeps rfl rfl).symm

theorem Describes.nested {decl : MessageDecl} (h : Describes m decl) :
    List.Forall₂ Describes (parts .message "nested_type" m) decl.nested := by
  obtain ⟨fs, hkeeps, rfl⟩ := h
  exact describes_nested hkeeps rfl

/-- What a message lists has the same names in both readings. -/
theorem Describes.names {decl : MessageDecl} (h : Describes m decl) {kind : ElementKind}
    {field : String} {type : Descriptor.Kind} (hpart : (kind, field, type) ∈ messageParts) :
    decl.names kind = (parts .message field m).map (nameOf type) := by
  obtain ⟨fs, hkeeps, rfl⟩ := h
  simp only [messageParts, List.mem_cons, List.not_mem_nil, or_false, Prod.mk.injEq] at hpart
  obtain ⟨rfl, rfl, rfl⟩ | ⟨rfl, rfl, rfl⟩ | ⟨rfl, rfl, rfl⟩ := hpart
  · rw [MessageDecl.names, Descriptor.messageDecl, List.map_map]
    exact map_eq_of_forall₂ (hkeeps.records 2 rfl)
      fun f kept hf => (nameOf_eq hf rfl rfl).symm
  · rw [MessageDecl.names, Descriptor.messageDecl]
    exact map_eq_of_forall₂ (hkeeps.records 8 rfl)
      fun o kept ho => (nameOf_eq ho rfl rfl).symm
  · rw [MessageDecl.names, Descriptor.messageDecl, List.map_map]
    exact map_eq_of_forall₂ (hkeeps.records 4 rfl)
      fun e kept he => (nameOf_eq he rfl rfl).symm

theorem DescribesFile.package {decl : FileDecl} (h : DescribesFile file decl) :
    decl.package = packageOf file := by
  obtain ⟨fs, hkeeps, rfl⟩ := h
  exact congrArg (Option.getD · "") (hkeeps.text? 2 rfl).symm

theorem DescribesFile.messages {decl : FileDecl} (h : DescribesFile file decl) :
    List.Forall₂ Describes (parts .file "message_type" file) decl.messages := by
  obtain ⟨fs, hkeeps, rfl⟩ := h
  exact describes_nested hkeeps rfl

theorem DescribesFile.enumKeys {decl : FileDecl} (h : DescribesFile file decl) :
    decl.enumKeys = (parts .file "enum_type" file).map fun e =>
      ⟨.enum, qualify (packageOf file) (nameOf .enum e)⟩ := by
  rw [FileDecl.enumKeys, h.package]
  obtain ⟨fs, hkeeps, rfl⟩ := h
  rw [Descriptor.fileDecl, List.map_map]
  exact map_eq_of_forall₂ (hkeeps.records 5 rfl) fun e kept he =>
    congrArg (fun name => ElementKey.mk .enum (qualify (packageOf file) name))
      (nameOf_eq he rfl rfl).symm

/-! ## The same declarations -/

section Set

variable {declared : FileSet}

theorem MessageIn.exists_site
    (hfiles : List.Forall₂ DescribesFile (parts .fileSet "file" set) declared.files)
    (h : MessageIn set scope m) : ∃ site ∈ declared.messageSites,
      scopeName site.file site.outer = scope ∧ Describes m site.decl := by
  induction h with
  | ofFile hfile hm =>
      obtain ⟨file, hmem, hdescribes⟩ := exists_of_forall₂_left hfiles hfile
      obtain ⟨decl, hdecl, hm⟩ := exists_of_forall₂_left hdescribes.messages hm
      obtain ⟨i, hi⟩ := List.getElem?_of_mem hdecl
      exact ⟨_, FileSet.mem_messageSites_iff.mpr (.ofFile hmem hi), hdescribes.package, hm⟩
  | inside _ hn ih =>
      obtain ⟨site, hsite, rfl, hdescribes⟩ := ih
      obtain ⟨decl, hdecl, hn⟩ := exists_of_forall₂_left hdescribes.nested hn
      obtain ⟨i, hi⟩ := List.getElem?_of_mem hdecl
      have hinside := FileSet.HasMessage.inside (FileSet.mem_messageSites_iff.mp hsite) hi
      refine ⟨_, FileSet.mem_messageSites_iff.mpr hinside, ?_, hn⟩
      rw [← hdescribes.name]
      exact site.scopeName_inner

theorem exists_messageIn
    (hfiles : List.Forall₂ DescribesFile (parts .fileSet "file" set) declared.files) :
    ∀ site ∈ declared.messageSites, ∃ m,
      MessageIn set (scopeName site.file site.outer) m ∧ Describes m site.decl := by
  intro site hsite
  rw [FileSet.mem_messageSites_iff] at hsite
  induction hsite with
  | @ofFile file decl i hfile hdecl =>
      obtain ⟨fs, hfs, hdescribes⟩ := exists_of_forall₂_right hfiles hfile
      obtain ⟨m, hm, hmdescribes⟩ :=
        exists_of_forall₂_right hdescribes.messages (List.mem_of_getElem? hdecl)
      refine ⟨m, ?_, hmdescribes⟩
      show MessageIn set file.package m
      rw [hdescribes.package]
      exact .ofFile hfs hm
  | @inside site decl i _ hdecl ih =>
      obtain ⟨m, hm, hdescribes⟩ := ih
      obtain ⟨n, hn, hndescribes⟩ :=
        exists_of_forall₂_right hdescribes.nested (List.mem_of_getElem? hdecl)
      refine ⟨n, ?_, hndescribes⟩
      show MessageIn set (scopeName site.file site.inner) n
      rw [site.scopeName_inner, MessageSite.fullName, hdescribes.name]
      exact .inside hm hn

theorem Describes.fullName {site : MessageSite} (h : Describes m site.decl) :
    site.fullName = qualify (scopeName site.file site.outer) (nameOf .message m) := by
  rw [MessageSite.fullName, h.name]

theorem Describes.listedKeys {site : MessageSite} (h : Describes m site.decl) {kind : ElementKind}
    {field : String} {type : Descriptor.Kind} (hpart : (kind, field, type) ∈ messageParts) :
    site.listedKeys kind = (parts .message field m).map fun p =>
      ⟨kind, qualify (qualify (scopeName site.file site.outer) (nameOf .message m))
        (nameOf type p)⟩ := by
  rw [MessageSite.listedKeys, h.names hpart, h.fullName, List.map_map]
  rfl

/-- Every kind of element but messages is listed by messages. -/
theorem exists_part {kind : ElementKind} (hkind : kind ≠ .message) :
    ∃ field type, (kind, field, type) ∈ messageParts := by
  cases kind with
  | message => exact absurd rfl hkind
  | field => exact ⟨"field", .field, by simp [messageParts]⟩
  | oneOf => exact ⟨"oneof_decl", .oneof, by simp [messageParts]⟩
  | enum => exact ⟨"enum_type", .enum, by simp [messageParts]⟩

theorem kind_ne_message {kind : ElementKind} {field : String} {type : Descriptor.Kind}
    (hpart : (kind, field, type) ∈ messageParts) : kind ≠ .message := by
  rintro rfl
  simp [messageParts] at hpart

/-- The identities with or without options are those of the set. -/
theorem declares_iff
    (hfiles : List.Forall₂ DescribesFile (parts .fileSet "file" set) declared.files) :
    (∃ payload, Declares set key payload) ↔ declared.Declares key := by
  rw [FileSet.declares_iff]
  constructor
  · rintro ⟨payload, h⟩
    cases h with
    | message hm =>
        obtain ⟨site, hsite, rfl, hdescribes⟩ := hm.exists_site hfiles
        refine Or.inl ⟨site, hsite, Or.inl ?_⟩
        rw [MessageSite.key, hdescribes.fullName]
    | part hm hpart hp =>
        obtain ⟨site, hsite, rfl, hdescribes⟩ := hm.exists_site hfiles
        refine Or.inl ⟨site, hsite, Or.inr ⟨_, kind_ne_message hpart, ?_⟩⟩
        rw [hdescribes.listedKeys hpart]
        exact List.mem_map_of_mem hp
    | enum hfile he =>
        obtain ⟨file, hmem, hdescribes⟩ := exists_of_forall₂_left hfiles hfile
        refine Or.inr ⟨file, hmem, ?_⟩
        rw [hdescribes.enumKeys]
        exact List.mem_map_of_mem he
  · rintro (⟨site, hsite, rfl | ⟨kind, hkind, hkey⟩⟩ | ⟨file, hfile, hkey⟩)
    · obtain ⟨m, hm, hdescribes⟩ := exists_messageIn hfiles site hsite
      refine ⟨optionsOf .message m, ?_⟩
      rw [MessageSite.key, hdescribes.fullName]
      exact .message hm
    · obtain ⟨m, hm, hdescribes⟩ := exists_messageIn hfiles site hsite
      obtain ⟨field, type, hpart⟩ := exists_part hkind
      rw [hdescribes.listedKeys hpart] at hkey
      obtain ⟨p, hp, rfl⟩ := List.mem_map.mp hkey
      exact ⟨_, .part hm hpart hp⟩
    · obtain ⟨fs, hfs, hdescribes⟩ := exists_of_forall₂_right hfiles hfile
      rw [hdescribes.enumKeys] at hkey
      obtain ⟨e, he, rfl⟩ := List.mem_map.mp hkey
      exact ⟨_, .enum hfs he⟩

/-- The fields of a set with options left as bytes describe its files. -/
theorem exists_of_decode {bs : Bytes} (h : FileSet.decode bs = .ok declared) :
    ∃ set, Wire.decode grammar .fileSet bs = .ok set ∧
      List.Forall₂ DescribesFile (parts .fileSet "file" set) declared.files := by
  obtain ⟨fs, hread, rfl⟩ := exists_of_map_ok h
  obtain ⟨kept, hkept, hkeeps⟩ := exists_decode hread
  refine ⟨kept, hkept, List.forall₂_map_right_iff.mpr (List.Forall₂.flip ?_)⟩
  exact (hkeeps.records 1 rfl).imp fun file kept hfile => ⟨file, hfile, rfl⟩

end Set

end Sealed

end SchemaGraph

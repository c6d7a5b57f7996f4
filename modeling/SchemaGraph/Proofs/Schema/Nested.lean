import SchemaGraph.Proofs.Schema.Site

/-!
# What stands where in a set

The declarations of a set by rules, from the files inwards, each with the names around
it and its source path: the field numbers of the lists it is in and its positions there,
alternating (`FileSet.HasMessage`, `FileSet.HasSite`).

The main result, `FileSet.mem_sites_iff_hasSite`: the list of the declarations of a set
has what stands in the set, and nothing else.
-/

namespace SchemaGraph

/-- Whether a field is a member of the group at a position: it names the position, and
is not an explicitly optional one. -/
def FieldDecl.MemberOf (f : FieldDecl) (position : Nat) : Prop :=
  f.proto3Optional = false ∧ ∃ i, f.oneofIndex = some i ∧ i.toInt = position

namespace FileSet

/-- A message stands in a file of the set, or in a message that does. -/
inductive HasMessage (set : FileSet) : MessageSite → Prop where
  | ofFile {file : FileDecl} {decl : MessageDecl} {i : Nat} (hfile : file ∈ set.files)
      (hdecl : file.messages[i]? = some decl) :
      set.HasMessage ⟨file, [], [4, Int32.ofNat i], decl⟩
  | inside {m : MessageSite} {decl : MessageDecl} {i : Nat} (hm : set.HasMessage m)
      (hdecl : m.decl.nested[i]? = some decl) :
      set.HasMessage ⟨m.file, m.outer ++ [m.decl.name], m.path ++ [3, Int32.ofNat i], decl⟩

/-- What stands in a set: its messages with their fields and enums, their oneof groups
that have members, and the enums of its files. -/
inductive HasSite (set : FileSet) : Site → Prop where
  | message {m : MessageSite} (hm : set.HasMessage m) : set.HasSite (.message m)
  | field {m : MessageSite} {decl : FieldDecl} {i : Nat} (hm : set.HasMessage m)
      (hdecl : m.decl.fields[i]? = some decl) : set.HasSite (.field ⟨m, i, decl⟩)
  | group {m : MessageSite} {name : String} {i : Nat} (hm : set.HasMessage m)
      (hname : m.decl.oneofs[i]? = some name) (hmember : ∃ f ∈ m.decl.fields, f.MemberOf i) :
      set.HasSite (.group ⟨m, i, name⟩)
  | enum {m : MessageSite} {decl : EnumDecl} {i : Nat} (hm : set.HasMessage m)
      (hdecl : m.decl.enums[i]? = some decl) :
      set.HasSite (.enum ⟨m.file, m.outer ++ [m.decl.name], m.path ++ [4, Int32.ofNat i], decl⟩)
  | fileEnum {file : FileDecl} {decl : EnumDecl} {i : Nat} (hfile : file ∈ set.files)
      (hdecl : file.enums[i]? = some decl) :
      set.HasSite (.enum ⟨file, [], [5, Int32.ofNat i], decl⟩)

end FileSet

/-! ## Messages inside messages -/

section Messages

variable {P : MessageSite → Prop}

mutual

/-- What holds of a message and passes to the messages inside holds of all of them. -/
theorem MessageDecl.forall_sites
    (hinside : ∀ m, P m → ∀ n i, m.decl.nested[i]? = some n →
      P ⟨m.file, m.inner, childPath m.path messageNested i, n⟩)
    (decl : MessageDecl) (file : FileDecl) (outer : List String) (path : List Int32)
    (h : P ⟨file, outer, path, decl⟩) : ∀ m ∈ decl.sites file outer path, P m := by
  match decl with
  | ⟨name, fields, nested, enums, extensions, oneofs, isMapEntry⟩ =>
    refine List.forall_mem_cons.mpr ⟨h, ?_⟩
    refine forall_nestedSites hinside nested file (outer ++ [name]) path messageNested 0
      fun n i hn => ?_
    rw [Nat.zero_add]
    exact hinside _ h n i hn

theorem forall_nestedSites
    (hinside : ∀ m, P m → ∀ n i, m.decl.nested[i]? = some n →
      P ⟨m.file, m.inner, childPath m.path messageNested i, n⟩)
    (decls : List MessageDecl) (file : FileDecl) (outer : List String) (path : List Int32)
    (list : Int32) (position : Nat)
    (h : ∀ n i, decls[i]? = some n → P ⟨file, outer, childPath path list (position + i), n⟩) :
    ∀ m ∈ nestedSites file outer path list position decls, P m := by
  match decls with
  | [] => simp [nestedSites]
  | decl :: rest =>
    rw [nestedSites]
    intro m hm
    rcases List.mem_append.mp hm with hm | hm
    · exact decl.forall_sites hinside file outer (childPath path list position) (h decl 0 rfl) m hm
    · refine forall_nestedSites hinside rest file outer path list (position + 1)
        (fun n i hn => ?_) m hm
      rw [Nat.add_right_comm, Nat.add_assoc]
      exact h n (i + 1) hn

end

theorem MessageDecl.mem_sites_self (decl : MessageDecl) (file : FileDecl) (outer : List String)
    (path : List Int32) : (⟨file, outer, path, decl⟩ : MessageSite) ∈ decl.sites file outer path := by
  obtain ⟨name, fields, nested, enums, extensions, oneofs, isMapEntry⟩ := decl
  exact List.mem_cons_self

/-- Each of several messages is listed. -/
theorem mem_nestedSites_of_getElem? {decl : MessageDecl} {decls : List MessageDecl} {i : Nat}
    (h : decls[i]? = some decl) (file : FileDecl) (outer : List String) (path : List Int32)
    (list : Int32) (position : Nat) :
    (⟨file, outer, childPath path list (position + i), decl⟩ : MessageSite) ∈
      nestedSites file outer path list position decls := by
  induction decls generalizing position i with
  | nil => cases h
  | cons first rest ih =>
      rw [nestedSites]
      cases i with
      | zero =>
          obtain rfl := Option.some.inj h
          exact List.mem_append_left _ (first.mem_sites_self file outer _)
      | succ i =>
          have hrest := ih h (position + 1)
          rw [Nat.add_right_comm, Nat.add_assoc] at hrest
          exact List.mem_append_right _ hrest

mutual

/-- With a message the messages inside it are listed. -/
theorem MessageDecl.inside_mem_sites (decl : MessageDecl) (file : FileDecl) (outer : List String)
    (path : List Int32) : ∀ m ∈ decl.sites file outer path, ∀ n i, m.decl.nested[i]? = some n →
      (⟨m.file, m.inner, childPath m.path messageNested i, n⟩ : MessageSite) ∈
        decl.sites file outer path := by
  match decl with
  | ⟨name, fields, nested, enums, extensions, oneofs, isMapEntry⟩ =>
    intro m hm n i hn
    rw [MessageDecl.sites] at hm ⊢
    refine List.mem_cons_of_mem _ ?_
    rcases List.mem_cons.mp hm with rfl | hm
    · have hlisted := mem_nestedSites_of_getElem? hn file (outer ++ [name]) path messageNested 0
      rwa [Nat.zero_add] at hlisted
    · exact inside_mem_nestedSites nested file (outer ++ [name]) path messageNested 0 m hm n i hn

theorem inside_mem_nestedSites (decls : List MessageDecl) (file : FileDecl)
    (outer : List String) (path : List Int32) (list : Int32) (position : Nat) :
    ∀ m ∈ nestedSites file outer path list position decls, ∀ n i, m.decl.nested[i]? = some n →
      (⟨m.file, m.inner, childPath m.path messageNested i, n⟩ : MessageSite) ∈
        nestedSites file outer path list position decls := by
  match decls with
  | [] => simp [nestedSites]
  | decl :: rest =>
    intro m hm n i hn
    rw [nestedSites] at hm ⊢
    rcases List.mem_append.mp hm with hm | hm
    · exact List.mem_append_left _
        (decl.inside_mem_sites file outer (childPath path list position) m hm n i hn)
    · exact List.mem_append_right _
        (inside_mem_nestedSites rest file outer path list (position + 1) m hm n i hn)

end

end Messages

/-! ## The lists of a set -/

namespace FileSet

variable {set : FileSet}

theorem mem_messageSites_iff {m : MessageSite} : m ∈ set.messageSites ↔ set.HasMessage m := by
  constructor
  · intro hm
    obtain ⟨file, hfile, hm⟩ := List.mem_flatMap.mp hm
    refine forall_nestedSites (fun _ h _ _ hn => .inside h hn) file.messages file [] []
      fileMessages 0 (fun n i hn => ?_) m hm
    rw [Nat.zero_add]
    exact .ofFile hfile hn
  · intro hm
    induction hm with
    | @ofFile file decl i hfile hdecl =>
        have hlisted := mem_nestedSites_of_getElem? hdecl file [] [] fileMessages 0
        rw [Nat.zero_add] at hlisted
        exact List.mem_flatMap.mpr ⟨file, hfile, hlisted⟩
    | inside _ hdecl ih =>
        obtain ⟨file, hfile, hm⟩ := List.mem_flatMap.mp ih
        exact List.mem_flatMap.mpr ⟨file, hfile,
          inside_mem_nestedSites file.messages file [] [] fileMessages 0 _ hm _ _ hdecl⟩

end FileSet

theorem FieldDecl.isIn_iff {f : FieldDecl} {position : Nat} :
    f.isIn position = true ↔ f.MemberOf position := by
  rw [isIn, MemberOf, Bool.and_eq_true, Bool.not_eq_true', Option.any_eq_true]
  simp only [beq_iff_eq]

section Inside

variable {m : MessageSite}

/-- What is made of each entry of a list and its position. -/
theorem mem_map_zipIdx_iff {α β : Type} {as : List α} (make : Nat → α → β) {b : β} :
    b ∈ as.zipIdx.map (fun entry => make entry.2 entry.1) ↔
      ∃ i a, as[i]? = some a ∧ b = make i a := by
  rw [List.mem_map]
  constructor
  · rintro ⟨⟨a, i⟩, hentry, rfl⟩
    exact ⟨i, a, List.mem_zipIdx_iff_getElem?.mp hentry, rfl⟩
  · rintro ⟨i, a, ha, rfl⟩
    exact ⟨(a, i), List.mem_zipIdx_iff_getElem?.mpr ha, rfl⟩

theorem MessageSite.mem_fields_iff {f : FieldSite} :
    f ∈ m.fields ↔ ∃ i decl, m.decl.fields[i]? = some decl ∧ f = ⟨m, i, decl⟩ :=
  mem_map_zipIdx_iff fun i decl => FieldSite.mk m i decl

theorem MessageSite.mem_enums_iff {e : EnumSite} :
    e ∈ m.enums ↔ ∃ i decl, m.decl.enums[i]? = some decl ∧
      e = ⟨m.file, m.inner, childPath m.path messageEnums i, decl⟩ :=
  mem_map_zipIdx_iff fun i decl => EnumSite.mk m.file m.inner (childPath m.path messageEnums i) decl

theorem FileDecl.mem_enumSites_iff {file : FileDecl} {e : EnumSite} :
    e ∈ file.enumSites ↔ ∃ i decl, file.enums[i]? = some decl ∧
      e = ⟨file, [], childPath [] fileEnums i, decl⟩ :=
  mem_map_zipIdx_iff fun i decl => EnumSite.mk file [] (childPath [] fileEnums i) decl

/-- The groups of a message that have a member among its declared fields. -/
theorem MessageSite.mem_groups_iff_memberOf {g : GroupSite} :
    g ∈ m.groups ↔ ∃ i name, m.decl.oneofs[i]? = some name ∧
      (∃ f ∈ m.decl.fields, f.MemberOf i) ∧ g = ⟨m, i, name⟩ := by
  have hmember (i : Nat) : (∃ f ∈ m.fields, f.decl.isIn i) ↔ ∃ f ∈ m.decl.fields, f.MemberOf i := by
    constructor
    · rintro ⟨f, hf, hin⟩
      obtain ⟨j, decl, hdecl, rfl⟩ := mem_fields_iff.mp hf
      exact ⟨decl, List.mem_of_getElem? hdecl, FieldDecl.isIn_iff.mp hin⟩
    · rintro ⟨decl, hdecl, hin⟩
      obtain ⟨j, hj⟩ := List.getElem?_of_mem hdecl
      exact ⟨⟨m, j, decl⟩, mem_fields_iff.mpr ⟨j, decl, hj, rfl⟩, FieldDecl.isIn_iff.mpr hin⟩
  have hdeclared : g ∈ m.declaredGroups ↔
      ∃ i name, m.decl.oneofs[i]? = some name ∧ g = ⟨m, i, name⟩ :=
    mem_map_zipIdx_iff fun i name => GroupSite.mk m i name
  rw [mem_groups_iff, hdeclared]
  constructor
  · rintro ⟨⟨i, name, hname, rfl⟩, hin⟩
    exact ⟨i, name, hname, (hmember i).mp hin, rfl⟩
  · rintro ⟨i, name, hname, hin, rfl⟩
    exact ⟨⟨i, name, hname, rfl⟩, (hmember i).mpr hin⟩

end Inside

/-- The declarations of a set are what stands in it. -/
theorem FileSet.mem_sites_iff_hasSite {set : FileSet} {s : Site} :
    s ∈ set.sites ↔ set.HasSite s := by
  constructor
  · intro hs
    rcases mem_sites_iff.mp hs with ⟨file, hfile, e, he, rfl⟩ | ⟨m, hm, hs⟩
    · obtain ⟨i, decl, hdecl, rfl⟩ := FileDecl.mem_enumSites_iff.mp he
      exact .fileEnum hfile hdecl
    · have hm := mem_messageSites_iff.mp hm
      cases s with
      | message m' =>
          rw [MessageSite.message_mem_sites.mp hs]
          exact .message hm
      | field f =>
          obtain ⟨i, decl, hdecl, rfl⟩ :=
            MessageSite.mem_fields_iff.mp (MessageSite.field_mem_sites.mp hs)
          exact .field hm hdecl
      | group g =>
          obtain ⟨i, name, hname, hmember, rfl⟩ :=
            MessageSite.mem_groups_iff_memberOf.mp (MessageSite.group_mem_sites.mp hs)
          exact .group hm hname hmember
      | enum e =>
          obtain ⟨i, decl, hdecl, rfl⟩ :=
            MessageSite.mem_enums_iff.mp (MessageSite.enum_mem_sites.mp hs)
          exact .enum hm hdecl
  · intro hs
    have hinside {m : MessageSite} {s : Site} (hm : set.HasMessage m) (hs : s ∈ m.sites) :
        s ∈ set.sites :=
      mem_sites_iff.mpr (Or.inr ⟨m, mem_messageSites_iff.mpr hm, hs⟩)
    cases hs with
    | message hm => exact hinside hm (MessageSite.message_mem_sites.mpr rfl)
    | field hm hdecl =>
        exact hinside hm (MessageSite.field_mem_sites.mpr
          (MessageSite.mem_fields_iff.mpr ⟨_, _, hdecl, rfl⟩))
    | group hm hname hmember =>
        exact hinside hm (MessageSite.group_mem_sites.mpr
          (MessageSite.mem_groups_iff_memberOf.mpr ⟨_, _, hname, hmember, rfl⟩))
    | enum hm hdecl =>
        exact hinside hm (MessageSite.enum_mem_sites.mpr
          (MessageSite.mem_enums_iff.mpr ⟨_, _, hdecl, rfl⟩))
    | fileEnum hfile hdecl =>
        exact mem_sites_iff.mpr (Or.inl ⟨_, hfile, _,
          FileDecl.mem_enumSites_iff.mpr ⟨_, _, hdecl, rfl⟩, rfl⟩)

end SchemaGraph

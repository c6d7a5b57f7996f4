import Mathlib.Data.Finset.Card
import SchemaGraph.Option.Registry
import SchemaGraph.Proofs.Schema.Site
import SchemaGraph.Proofs.Store.Valid

/-!
# The two indexes of a registry

A registry is filled by one insertion for each declared extension.  What both indexes hold
after any number of insertions is said of the list of what was inserted (`Registry.Indexes`):

* under a message type and a number, the last extension with these;
* under a full name, the key of the last extension with the name.

The list is that of all extensions of the set, those of the files and of the messages at any
depth, in the order in which they are declared (`FileSet.allExtensions_eq`).

The main result is `Registry.indexes_of_set`.  The two indexes do not agree on names: what is
found under a name has the key that was declared with the name, but another extension may have
taken the key over (`FileSet.TakesOver`), and then it is the other one that is found
(`Registry.findByName_takenOver`).
-/

namespace SchemaGraph

/-! ## Declared extensions -/

/-- The extensions that a message declares, those of the messages inside left out. -/
def MessageSite.extensions (m : MessageSite) : List Extension :=
  m.decl.extensions.map fun f => f.extension m.file.name m.fullName

/-- The extensions that a file declares: its own, and those of its messages at any depth. -/
def FileDecl.declaredExtensions (file : FileDecl) : List Extension :=
  (file.extensions.map fun f => f.extension file.name file.package) ++
    file.messageSites.flatMap MessageSite.extensions

/-- The extensions that a set declares, in order. -/
def FileSet.declaredExtensions (set : FileSet) : List Extension :=
  set.files.flatMap FileDecl.declaredExtensions

theorem scopeName_append_singleton (file : FileDecl) (outer : List String) (name : String) :
    scopeName file (outer ++ [name]) = qualify (scopeName file outer) name := by
  rw [scopeName, List.foldl_append]
  rfl

mutual

theorem MessageDecl.allExtensions_eq (decl : MessageDecl) (file : FileDecl) (outer : List String)
    (path : List Int32) : decl.allExtensions file.name (scopeName file outer) =
      (decl.sites file outer path).flatMap MessageSite.extensions := by
  match decl with
  | ⟨name, fields, nested, enums, extensions, oneofs, isMapEntry⟩ =>
    rw [MessageDecl.allExtensions, MessageDecl.sites, List.flatMap_cons,
      ← scopeName_append_singleton,
      nestedExtensions_eq nested file (outer ++ [name]) path messageNested 0,
      scopeName_append_singleton]
    rfl

theorem nestedExtensions_eq (decls : List MessageDecl) (file : FileDecl) (outer : List String)
    (path : List Int32) (list : Int32) (position : Nat) :
    nestedExtensions file.name (scopeName file outer) decls =
      (nestedSites file outer path list position decls).flatMap MessageSite.extensions := by
  match decls with
  | [] => rfl
  | decl :: rest =>
    rw [nestedExtensions, nestedSites, List.flatMap_append,
      decl.allExtensions_eq file outer (childPath path list position),
      nestedExtensions_eq rest file outer path list (position + 1)]

end

/-- A registry is given the declared extensions in order. -/
theorem FileSet.allExtensions_eq (set : FileSet) : set.allExtensions = set.declaredExtensions := by
  refine List.flatMap_congr fun file _ => ?_
  rw [FileDecl.allExtensions, FileDecl.declaredExtensions]
  exact congrArg _ (nestedExtensions_eq file.messages file [] [] fileMessages 0)

/-! ## The last of several -/

/-- The last element of a list with a property. -/
def IsLast {α : Type} (p : α → Prop) (as : List α) (a : α) : Prop :=
  ∃ before after, as = before ++ a :: after ∧ p a ∧ ∀ b ∈ after, ¬ p b

section Last

variable {α : Type} {p : α → Prop} {as : List α} {a b : α}

theorem not_isLast_nil : ¬ IsLast p [] a := by
  rintro ⟨before, after, h, -⟩
  simp at h

/-- An element put at the end is the last one, if it has the property. -/
theorem isLast_append_singleton_iff :
    IsLast p (as ++ [b]) a ↔ p b ∧ b = a ∨ ¬ p b ∧ IsLast p as a := by
  constructor
  · rintro ⟨before, after, h, ha, hafter⟩
    cases after using List.reverseRecOn with
    | nil =>
        obtain ⟨-, rfl⟩ := List.append_singleton_inj.mp h
        exact Or.inl ⟨ha, rfl⟩
    | append_singleton after c =>
        rw [← List.cons_append, ← List.append_assoc, List.append_singleton_inj] at h
        obtain ⟨rfl, rfl⟩ := h
        exact Or.inr ⟨hafter b (by simp), before, after, rfl, ha,
          fun c hc => hafter c (List.mem_append_left _ hc)⟩
  · rintro (⟨hb, rfl⟩ | ⟨hb, before, after, rfl, ha, hafter⟩)
    · exact ⟨as, [], rfl, hb, by simp⟩
    · refine ⟨before, after ++ [b], by simp, ha, fun c hc => ?_⟩
      rcases List.mem_append.mp hc with hc | hc
      · exact hafter c hc
      · rw [List.mem_singleton.mp hc]
        exact hb

theorem IsLast.mem (h : IsLast p as a) : a ∈ as ∧ p a := by
  obtain ⟨before, after, rfl, ha, -⟩ := h
  exact ⟨by simp, ha⟩

/-- Some element is the last one if any has the property. -/
theorem exists_isLast (ha : a ∈ as) (hp : p a) : ∃ b, IsLast p as b := by
  induction as using List.reverseRecOn with
  | nil => exact absurd ha List.not_mem_nil
  | append_singleton as b ih =>
      by_cases hb : p b
      · exact ⟨b, isLast_append_singleton_iff.mpr (Or.inl ⟨hb, rfl⟩)⟩
      · rcases List.mem_append.mp ha with ha | ha
        · obtain ⟨c, hc⟩ := ih ha
          exact ⟨c, isLast_append_singleton_iff.mpr (Or.inr ⟨hb, hc⟩)⟩
        · rw [List.mem_singleton.mp ha] at hp
          exact absurd hp hb

/-- What stands after the last element of one split stands there in every split. -/
theorem last_split_eq {before after before' after' : List α}
    (h : before ++ a :: after = before' ++ b :: after') (ha : p a) (hafter : ∀ c ∈ after, ¬ p c)
    (hb : p b) (hafter' : ∀ c ∈ after', ¬ p c) : a = b ∧ after = after' := by
  rcases List.append_eq_append_iff.mp h with ⟨between, -, h⟩ | ⟨between, -, h⟩
  · cases between with
    | nil => exact List.cons.inj h
    | cons c between =>
        have hmem : b ∈ after := by
          rw [(List.cons.inj h).2]
          simp
        exact absurd hb (hafter b hmem)
  · cases between with
    | nil => exact (List.cons.inj h).imp Eq.symm Eq.symm
    | cons c between =>
        have hmem : a ∈ after' := by
          rw [(List.cons.inj h).2]
          simp
        exact absurd ha (hafter' a hmem)

/-- There is only one last element. -/
theorem IsLast.eq (h : IsLast p as a) (h' : IsLast p as b) : a = b := by
  obtain ⟨before, after, rfl, ha, hafter⟩ := h
  obtain ⟨before', after', h, hb, hafter'⟩ := h'
  exact (last_split_eq h ha hafter hb hafter').1

end Last

namespace Registry

variable {r : Registry} {declared : List Extension} {e : Extension} {name : String}

/-! ## Insertions -/

/-- What both indexes hold when some extensions have been inserted. -/
structure Indexes (r : Registry) (declared : List Extension) : Prop where
  byNumber : ∀ key e,
    r.byNumber.lookup key = some e ↔ IsLast (fun d => d.key = key) declared e
  byName : ∀ name key,
    r.byName.lookup name = some key ↔
      ∃ d, IsLast (fun d => d.fullName = name) declared d ∧ d.key = key
  nodup : (r.byNumber.map Prod.fst).Nodup

theorem indexes_empty : Indexes {} [] where
  byNumber key e := by
    rw [iff_false_right not_isLast_nil]
    simp
  byName name key := by
    simp [not_isLast_nil]
  nodup := List.nodup_nil

/-- One insertion. -/
theorem Indexes.insert (h : r.Indexes declared) (e : Extension) :
    (r.insert e).Indexes (declared ++ [e]) where
  byNumber key d := by
    rw [isLast_append_singleton_iff, ← h.byNumber]
    show (assign e.key e r.byNumber).lookup key = some d ↔ _
    rw [lookup_assign]
    by_cases hkey : key = e.key
    · simp [hkey]
    · simp [hkey, Ne.symm hkey]
  byName name key := by
    show (assign e.fullName e.key r.byName).lookup name = some key ↔ _
    rw [lookup_assign]
    simp only [isLast_append_singleton_iff]
    by_cases hname : name = e.fullName
    · simp [hname]
    · simp [hname, Ne.symm hname, h.byName]
  nodup := nodup_keys_assign e.key e h.nodup

/-- Any number of insertions. -/
theorem indexes_foldl (declared : List Extension) :
    (declared.foldl insert {}).Indexes declared := by
  induction declared using List.reverseRecOn with
  | nil => exact indexes_empty
  | append_singleton declared e ih =>
      rw [List.foldl_append]
      exact ih.insert e

theorem indexes_ofSet (set : FileSet) : (ofSet set).Indexes set.declaredExtensions := by
  rw [← set.allExtensions_eq]
  exact indexes_foldl set.allExtensions

/-! ## Look-ups -/

/-- There are as many extensions as different keys. -/
theorem Indexes.size (h : r.Indexes declared) :
    r.size = (declared.map Extension.key).toFinset.card := by
  have hkeys : (r.byNumber.map Prod.fst).toFinset = (declared.map Extension.key).toFinset := by
    ext key
    rw [List.mem_toFinset, List.mem_toFinset, List.mem_map, List.mem_map]
    constructor
    · rintro ⟨⟨key, e⟩, hmem, rfl⟩
      have hlast := (h.byNumber key e).mp ((lookup_eq_some_iff_mem h.nodup).mpr hmem)
      exact ⟨e, hlast.mem.1, hlast.mem.2⟩
    · rintro ⟨d, hd, rfl⟩
      obtain ⟨e, he⟩ := exists_isLast (p := fun e => e.key = d.key) hd rfl
      exact ⟨(d.key, e), (lookup_eq_some_iff_mem h.nodup).mp ((h.byNumber d.key e).mpr he), rfl⟩
  rw [← hkeys, List.toFinset_card_of_nodup h.nodup, List.length_map]
  rfl

/-- A name leads to the last extension with the key of the last one with the name. -/
theorem Indexes.findByName (h : r.Indexes declared) :
    r.findByName name = some e ↔ ∃ d, IsLast (fun d => d.fullName = name) declared d ∧
      IsLast (fun e => e.key = d.key) declared e := by
  rw [Registry.findByName, Option.bind_eq_some_iff]
  simp only [h.byName, h.byNumber]
  constructor
  · rintro ⟨-, ⟨d, hd, rfl⟩, he⟩
    exact ⟨d, hd, he⟩
  · rintro ⟨d, hd, he⟩
    exact ⟨d.key, ⟨d, hd, rfl⟩, he⟩

end Registry

/-- After the last extension with a full name another one is declared with its message type
and its number. -/
def FileSet.TakesOver (set : FileSet) (name : String) : Prop :=
  ∃ before d after, set.declaredExtensions = before ++ d :: after ∧ d.fullName = name ∧
    (∀ e ∈ after, e.fullName ≠ name) ∧ ∃ e ∈ after, e.key = d.key

namespace Registry

variable {set : FileSet} {e : Extension} {name : String}

/-- What is found under a name has the name unless its key has been taken over. -/
theorem fullName_eq_iff (h : (ofSet set).findByName name = some e) :
    e.fullName = name ↔ ¬ set.TakesOver name := by
  obtain ⟨d, ⟨before, after, hdeclared, hname, hafter⟩, he⟩ :=
    (indexes_ofSet set).findByName.mp h
  by_cases htaken : ∃ o ∈ after, o.key = d.key
  · -- What is found stands after the one with the name.
    obtain ⟨o, ho, hkey⟩ := htaken
    obtain ⟨e', later, rest, rfl, hkey', hrest⟩ :=
      exists_isLast (p := fun o => o.key = d.key) ho hkey
    obtain rfl : e' = e := by
      refine IsLast.eq ⟨before ++ d :: later, rest, ?_, hkey', hrest⟩ he
      rw [hdeclared]
      simp
    simp only [hafter e' (by simp), false_iff, not_not]
    exact ⟨before, d, _, hdeclared, hname, hafter, o, ho, hkey⟩
  · obtain rfl : d = e := IsLast.eq (p := fun o => o.key = d.key)
      ⟨before, after, hdeclared, rfl, fun o ho hkey => htaken ⟨o, ho, hkey⟩⟩ he
    simp only [hname, true_iff]
    rintro ⟨before', d', after', hdeclared', hname', hafter', htaken'⟩
    obtain ⟨rfl, rfl⟩ := last_split_eq (p := fun o => o.fullName = name)
      (hdeclared'.symm.trans hdeclared) hname' hafter' hname hafter
    exact htaken htaken'

/-- What is found under a name is what is found under its own message type and number. -/
theorem findByNumber_of_findByName (h : (ofSet set).findByName name = some e) :
    (ofSet set).findByNumber e.extendee e.number = some e := by
  obtain ⟨d, -, he⟩ := (indexes_ofSet set).findByName.mp h
  refine ((indexes_ofSet set).byNumber e.key e).mpr ?_
  rw [he.mem.2]
  exact he

/-- The two indexes.  A message type and a number lead to the last extension declared with
these, and there are as many extensions as pairs of these.  What is found under a name is found
under its own message type and number too, and it has the name unless its key has been taken
over. -/
theorem indexes_of_set (set : FileSet) :
    (∀ extendee number e, (ofSet set).findByNumber extendee number = some e ↔
      IsLast (fun d => d.key = (extendee, number)) set.declaredExtensions e) ∧
    (ofSet set).size = (set.declaredExtensions.map Extension.key).toFinset.card ∧
    ∀ name e, (ofSet set).findByName name = some e →
      (ofSet set).findByNumber e.extendee e.number = some e ∧
        (e.fullName = name ↔ ¬ set.TakesOver name) :=
  ⟨fun extendee number e => (indexes_ofSet set).byNumber (extendee, number) e,
    (indexes_ofSet set).size,
    fun _ _ h => ⟨findByNumber_of_findByName h, fullName_eq_iff h⟩⟩

/-- A message inside another one declares an extension with the message type and the number of
an extension of the file. -/
def contestedSet : FileSet where
  files :=
    [{ name := "meta.proto"
       package := "meta"
       messages :=
         [{ name := "Lineage"
            fields := []
            nested :=
              [{ name := "Origin"
                 fields := []
                 nested := []
                 enums := []
                 extensions :=
                   [{ name := "owner", number := 50001, type := .string
                      extendee := ".google.protobuf.FieldOptions" }]
                 oneofs := []
                 isMapEntry := false }]
            enums := []
            extensions := []
            oneofs := []
            isMapEntry := false }]
       extensions :=
         [{ name := "level", number := 50001, type := .sint32
            extendee := ".google.protobuf.FieldOptions" },
          { name := "tag", number := 50002, type := .string
            extendee := ".google.protobuf.FieldOptions" }] }]

/-- The extension of the inner message is found under its name, and its key is not taken over. -/
theorem indexes_of_set_contestedSet :
    ∃ e, (ofSet contestedSet).findByName "meta.Lineage.Origin.owner" = some e ∧
      (ofSet contestedSet).findByNumber "google.protobuf.FieldOptions" 50001 = some e ∧
      ¬ contestedSet.TakesOver "meta.Lineage.Origin.owner" := by
  obtain ⟨-, -, hname⟩ := indexes_of_set contestedSet
  obtain ⟨hnumber, hiff⟩ := hname "meta.Lineage.Origin.owner"
    ⟨"meta.Lineage.Origin.owner", "google.protobuf.FieldOptions", 50001, "string", .string,
      "meta.proto"⟩ rfl
  exact ⟨_, rfl, hnumber, hiff.mp rfl⟩

/-- The name of the extension of the file leads to the one of the inner message. -/
theorem findByName_takenOver :
    ∃ e, (ofSet contestedSet).findByName "meta.level" = some e ∧
      e.fullName ≠ "meta.level" :=
  ⟨_, rfl, by decide⟩

end Registry

end SchemaGraph

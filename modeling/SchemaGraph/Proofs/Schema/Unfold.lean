import SchemaGraph.Graph.SchemaField
import SchemaGraph.Proofs.Flatten.Exact
import SchemaGraph.Proofs.Schema.Faithful

/-!
# The unfolding of a schema

The flattened schema of a message, read off the declarations of a set without any
graph.

* `FileSet.Continues` says what follows a declaration when a schema is unfolded: a
  message is followed by its fields outside groups and its groups, a group by its
  members, and a field that holds a message of the set by what this owns;
* `FileSet.IsChain` are the non-empty chains below a message on which nothing is
  declared twice;
* `FileSet.record?` is the record of a chain;
* `FileSet.Records` says what such a record is to say, by the relations that a vertex is
  described with, and `FileSet.records_of_record?` that it does.

Where wrapper messages are flattened, a field that holds one ends its chain, and is
shown as the field that the message wraps (`FileSet.shown`).

How many chains there are is not said; on a message that refers to itself they are
finitely many because none of them repeats a declaration.
-/

namespace SchemaGraph

namespace FileSet

/-- What follows a declaration when a schema is unfolded, with wrapper messages
flattened or not. -/
inductive Continues (set : FileSet) (flat : Bool) : Site → Site → Prop where
  | message {m : MessageSite} {s : Site} (hs : s ∈ m.owned) : set.Continues flat (.message m) s
  | group {g : GroupSite} {f : FieldSite} (hf : f ∈ g.message.fields) (hgroup : f.group? = some g) :
      set.Continues flat (.group g) (.field f)
  | field {f : FieldSite} {m : MessageSite} {s : Site} (htype : f.decl.HoldsMessage)
      (hm : m ∈ set.messageSites) (hname : f.decl.RefersTo m.fullName)
      (hplain : flat = true → m.file.name ≠ wrappersFile) (hs : s ∈ m.owned) :
      set.Continues flat (.field f) s

/-- A chain below a message: not empty, each declaration following the one before
it, the first one the message, and none of them twice. -/
structure IsChain (set : FileSet) (flat : Bool) (m : MessageSite) (chain : List Site) : Prop where
  nonempty : chain ≠ []
  follows : (Site.message m :: chain).IsChain (set.Continues flat)
  nodup : chain.Nodup

/-- The field of the wrapper message that a field is typed as. -/
def wrapped? (set : FileSet) (f : FieldSite) : Option FieldSite :=
  if f.decl.type.isMessage then
    set.fieldSites.find? fun p =>
      p.message.file.name == wrappersFile && p.message.fullName == f.decl.reference
  else none

/-- The field as which a field is shown: the wrapped one, if wrapper messages are
flattened and it is typed as one. -/
def shown (set : FileSet) (flat : Bool) (f : FieldSite) : FieldSite :=
  if flat then (set.wrapped? f).getD f else f

/-- The path type and the kind of data of a declaration. -/
def shape (set : FileSet) (flat : Bool) : Site → String × DataType
  | .message m => (typeTag (messageTag m.fullName), .record)
  | .field f => (set.shown flat f).decl.shape set.mapEntries
  | .group _ => (unionTag, .union)
  | .enum _ => (enumTag, .enum)

end FileSet

namespace Site

/-- The comment that the file records for a declaration. -/
def comment : Site → String
  | .message m => m.file.commentAt m.path
  | .field f => f.message.file.commentAt (childPath f.message.path messageFields f.position)
  | .group g => g.message.file.commentAt (childPath g.message.path messageOneofs g.position)
  | .enum e => e.file.commentAt e.path

/-- The declared type of a field; that of a group is called a oneof. -/
def nativeType : Site → String
  | .field f => f.decl.nativeType
  | _ => "oneof"

/-- Whether there may be no value: always, unless a field is required. -/
def isNullable : Site → Bool
  | .field f => f.decl.label != .required
  | _ => true

end Site

namespace FileSet

/-- The path of a chain: the version of the notation, the path type of the message,
and for each declaration its path type and its name. -/
def chainPath (set : FileSet) (flat : Bool) (m : MessageSite) (chain : List Site) : String :=
  Text.join "." ("[version=2.0]" :: (set.shape flat (.message m)).1 ::
    chain.flatMap fun s => [(set.shape flat s).1, s.name])

/-- The record of a chain: what its last declaration says, with the options that it
has.  Only the empty chain has none. -/
def record? (set : FileSet) (flat : Bool) (options : ElementKey → List CustomOption)
    (m : MessageSite) (chain : List Site) : Option SchemaField :=
  chain.getLast?.map fun s =>
    { fieldPath := set.chainPath flat m chain
      nativeType := s.nativeType
      dataType := (set.shape flat s).2
      nullable := s.isNullable
      description := s.comment
      options := options s.key }

end FileSet

/-! ## What a record is to say -/

namespace Site

/-- Where in its file a declaration stands. -/
def path : Site → List Int32
  | .message m => m.path
  | .field f => f.message.path ++ [2, Int32.ofNat f.position]
  | .group g => g.message.path ++ [8, Int32.ofNat g.position]
  | .enum e => e.path

/-- The native type in a record: that of a field, and the same word for all groups. -/
inductive HasNativeType : Site → String → Prop where
  | field {f : FieldSite} {nativeType tag : String} {dataType : DataType}
      (htype : f.decl.HasType nativeType tag dataType) : HasNativeType (.field f) nativeType
  | group {g : GroupSite} : HasNativeType (.group g) "oneof"

end Site

namespace FileSet

/-- The path type and the kind of data of a declaration.  Where wrapper messages are
flattened, those of a field that holds one are those of the field that it wraps. -/
inductive HasShape (set : FileSet) (flat : Bool) : Site → String → DataType → Prop where
  | message {m : MessageSite} {tag : String} (htag : IsMessageTag m.fullName tag) :
      set.HasShape flat (.message m) ("[type=" ++ tag ++ "]") .record
  | field {f : FieldSite} {pathType : String} {dataType : DataType}
      (hplain : flat = true → ∀ p, ¬ set.Wraps f p) (hshape : f.HasShape set pathType dataType) :
      set.HasShape flat (.field f) pathType dataType
  | wrapped {f p : FieldSite} {pathType : String} {dataType : DataType} (hflat : flat = true)
      (hwraps : set.Wraps f p) (hshape : p.HasShape set pathType dataType) :
      set.HasShape flat (.field f) pathType dataType
  | group {g : GroupSite} : set.HasShape flat (.group g) "[type=union]" .union
  | enum {e : EnumSite} : set.HasShape flat (.enum e) "[type=enum]" .enum

/-- What a chain adds to a field path: the path type and the name of each declaration. -/
inductive ChainParts (set : FileSet) (flat : Bool) : List Site → List String → Prop where
  | nil : set.ChainParts flat [] []
  | cons {s : Site} {chain : List Site} {pathType : String} {dataType : DataType}
      {parts : List String} (hshape : set.HasShape flat s pathType dataType)
      (hrest : set.ChainParts flat chain parts) :
      set.ChainParts flat (s :: chain) (pathType :: s.name :: parts)

/-- What a record says of the declaration that it is for. -/
structure Tells (set : FileSet) (flat : Bool) (options : ElementKey → List CustomOption) (s : Site)
    (x : SchemaField) : Prop where
  nativeType : s.HasNativeType x.nativeType
  dataType : ∃ pathType, set.HasShape flat s pathType x.dataType
  nullable : x.nullable = false ↔ ∃ f, s = .field f ∧ f.decl.label = .required
  description : Recorded s.home.locations s.path x.description
  options : x.options = options s.key

/-- The record of a chain says the path of the chain, and what its last declaration says. -/
structure Records (set : FileSet) (flat : Bool) (options : ElementKey → List CustomOption)
    (m : MessageSite) (chain : List Site) (x : SchemaField) : Prop where
  fieldPath : ∃ root dataType parts, set.HasShape flat (.message m) root dataType ∧
    set.ChainParts flat chain parts ∧
    x.fieldPath = Text.join "." ("[version=2.0]" :: root :: parts)
  last : ∃ s, chain.getLast? = some s ∧ set.Tells flat options s x

end FileSet

/-! ## Chains and the edges of a set -/

section Continues

variable {set : FileSet} {flat : Bool} {s t : Site} {m : MessageSite} {edge : Edge}

theorem MessageSite.owner_of_mem_owned (hs : s ∈ m.owned) : s.owner? = some (.message m) := by
  rcases mem_owned_iff.mp hs with ⟨f, hf, hgroup, rfl⟩ | ⟨g, hg, rfl⟩
  · rw [Site.owner?, hgroup, message_of_mem_fields hf]
  · rw [Site.owner?, message_of_mem_groups hg]

theorem MessageSite.home_of_mem_owned (hs : s ∈ m.owned) : s.home = m.file :=
  (home_of_owner (owner_of_mem_owned hs)).symm

/-- Only a field or a group follows anything. -/
theorem FileSet.Continues.kind (h : set.Continues flat s t) :
    t.key.kind = .field ∨ t.key.kind = .oneOf := by
  have howned {m : MessageSite} {t : Site} (ht : t ∈ m.owned) :
      t.key.kind = .field ∨ t.key.kind = .oneOf := by
    rcases MessageSite.mem_owned_iff.mp ht with ⟨f, -, -, rfl⟩ | ⟨g, -, rfl⟩
    · exact Or.inl rfl
    · exact Or.inr rfl
  cases h with
  | message ht => exact howned ht
  | group => exact Or.inl rfl
  | field _ _ _ _ ht => exact howned ht

/-- What a declaration belongs to is followed by it. -/
theorem FileSet.continues_of_owner (ht : t ∈ set.sites) (howner : t.owner? = some s) :
    set.Continues flat s t := by
  cases t with
  | message m => cases howner
  | enum e => cases howner
  | group g =>
      obtain rfl := Option.some.inj howner
      have hg := (FileSet.mem_groupSites_iff.mp (FileSet.group_mem_sites.mp ht)).2
      exact Continues.message (MessageSite.mem_owned_iff.mpr (Or.inr ⟨g, hg, rfl⟩))
  | field f =>
      have hf := (FileSet.mem_fieldSites_iff.mp (FileSet.field_mem_sites.mp ht)).2
      rw [Site.owner?] at howner
      split at howner
      · next g hgroup =>
        obtain rfl := Option.some.inj howner
        have hmessage := MessageSite.message_of_mem_declaredGroups
          (FieldSite.group?_eq_some_iff.mp hgroup).1
        exact Continues.group (by rwa [hmessage]) hgroup
      · next hgroup =>
        obtain rfl := Option.some.inj howner
        exact Continues.message (MessageSite.mem_owned_iff.mpr (Or.inl ⟨f, hf, hgroup, rfl⟩))

/-- A step of the graph unfolds the schema, unless it enters a wrapper message that
is flattened. -/
theorem FileSet.IsLink.continues (h : set.IsLink s t edge) (hkind : edge.kind = .field)
    (hout : flat = true → ¬ t.isWrapped) : set.Continues flat s t := by
  cases h with
  | owner ht howner => exact continues_of_owner ht howner
  | owned _ htype hm hname ht =>
      refine Continues.field (FieldDecl.holdsMessage_iff.mpr htype) hm
        (FieldDecl.refersTo_iff.mpr hname.symm) (fun hflat => ?_) ht
      have hhome := hout hflat
      rwa [Site.isWrapped, MessageSite.home_of_mem_owned ht] at hhome
  | message => cases hkind
  | enum => cases hkind

/-- What follows a declaration of the set is declared by the set, there is a step
to it, and it is not in the wrappers file if that is to be flattened. -/
theorem FileSet.Continues.link (hu : set.UniqueKeys) (hs : s ∈ set.sites)
    (h : set.Continues flat s t) :
    t ∈ set.sites ∧ ⟨s.key, t.key, Edge.into (t.element set.mapEntries)⟩ ∈ set.links ∧
      (flat = true → ¬ s.isWrapped → ¬ t.isWrapped) := by
  cases h with
  | message ht =>
      have hmem := mem_sites_of_mem_owned (FileSet.message_mem_sites.mp hs) ht
      have howner := MessageSite.owner_of_mem_owned ht
      refine ⟨hmem, ownerLink_mem_links hmem howner, fun _ hout => ?_⟩
      rwa [Site.isWrapped, ← home_of_owner howner]
  | @group g f hf hgroup =>
      obtain ⟨hm, -⟩ := FileSet.mem_groupSites_iff.mp (FileSet.group_mem_sites.mp hs)
      have hmem : Site.field f ∈ set.sites := by
        refine FileSet.field_mem_sites.mpr (FileSet.mem_fieldSites_iff.mpr ?_)
        rw [MessageSite.message_of_mem_fields hf]
        exact ⟨hm, hf⟩
      have howner : (Site.field f).owner? = some (.group g) := by rw [Site.owner?, hgroup]
      refine ⟨hmem, ownerLink_mem_links hmem howner, fun _ hout => ?_⟩
      rwa [Site.isWrapped, ← home_of_owner howner]
  | field htype hm hname hplain ht =>
      refine ⟨mem_sites_of_mem_owned hm ht,
        ownedLink_mem_links hu (FileSet.field_mem_sites.mp hs)
          (FieldDecl.holdsMessage_iff.mp htype) hm (FieldDecl.refersTo_iff.mp hname).symm ht,
        fun hflat _ => ?_⟩
      -- Here the file is that of the message, whatever the file of the field is.
      rw [Site.isWrapped, MessageSite.home_of_mem_owned ht]
      exact hplain hflat

/-- A chain has declarations of the set only. -/
theorem FileSet.mem_sites_of_isChain {chain : List Site} (hu : set.UniqueKeys) (hs : s ∈ set.sites)
    (hchain : (s :: chain).IsChain (set.Continues flat)) : ∀ t ∈ chain, t ∈ set.sites := by
  induction chain generalizing s with
  | nil => simp
  | cons t rest ih =>
      obtain ⟨hfirst, hlater⟩ := List.isChain_cons_cons.mp hchain
      have ht : t ∈ set.sites := (hfirst.link hu hs).1
      exact List.forall_mem_cons.mpr ⟨ht, ih ht hlater⟩

theorem FileSet.kind_of_isChain {chain : List Site}
    (hchain : (s :: chain).IsChain (set.Continues flat)) :
    ∀ t ∈ chain, t.key.kind = .field ∨ t.key.kind = .oneOf := by
  induction chain generalizing s with
  | nil => simp
  | cons t rest ih =>
      obtain ⟨hfirst, hlater⟩ := List.isChain_cons_cons.mp hchain
      exact List.forall_mem_cons.mpr ⟨hfirst.kind, ih hlater⟩

end Continues

/-! ## What a declaration is shown as -/

section Shown

variable {set : FileSet} {flat : Bool} {f p : FieldSite}

theorem FileSet.wraps_of_wrapped? (hf : f ∈ set.fieldSites) (h : set.wrapped? f = some p) :
    set.Wraps f p := by
  rw [wrapped?] at h
  split at h
  · next htype =>
    have hfound := List.find?_some h
    rw [Bool.and_eq_true, beq_iff_eq, beq_iff_eq] at hfound
    exact wraps_of_reference hf htype (List.mem_of_find?_eq_some h) hfound.1 hfound.2
  · cases h

theorem FileSet.wrapped?_ne_none (h : set.Wraps f p) : set.wrapped? f ≠ none := by
  rw [wrapped?, if_pos h.type]
  intro hnone
  have hnot := List.find?_eq_none.mp hnone p h.primitive
  rw [h.file, h.name] at hnot
  simp at hnot

theorem Site.comment_element (entries : List String) (s : Site) :
    (s.element entries).comment = s.comment := by
  cases s <;> rfl

theorem Site.name_element (entries : List String) {s : Site} (hname : IsIdentifier s.name) :
    (s.element entries).name = s.name := by
  have hdot := hname.2
  cases s with
  | message m => exact lastSegment_qualify hdot
  | field f => exact lastSegment_qualify hdot
  | group g => exact lastSegment_qualify hdot
  | enum e => exact lastSegment_qualify hdot

/-- The path type and the kind of data in the vertex of a declaration. -/
theorem Site.shape_element (set : FileSet) (s : Site) :
    ((s.element set.mapEntries).pathType, (s.element set.mapEntries).dataType) =
      set.shape false s := by
  cases s <;> rfl

end Shown

/-! ## The record of a chain -/

namespace FileSet

variable {set : FileSet} {flat : Bool} {options : ElementKey → List CustomOption} {s : Site}
variable {m : MessageSite} {chain : List Site} {x : SchemaField}

theorem hasShape_shape (hs : s ∈ set.sites) :
    set.HasShape flat s (set.shape flat s).1 (set.shape flat s).2 := by
  have hown (f : FieldSite) :
      f.HasShape set (f.decl.shape set.mapEntries).1 (f.decl.shape set.mapEntries).2 :=
    FieldSite.hasShape_iff.mpr ⟨rfl, rfl⟩
  cases s with
  | message m => exact .message (isMessageTag_iff.mpr rfl)
  | group g => exact .group
  | enum e => exact .enum
  | field f =>
      rw [shape, shown]
      cases flat with
      | false => exact .field (fun hflat => by cases hflat) (hown f)
      | true =>
          cases hwrapped : set.wrapped? f with
          | none => exact .field (fun _ p hwraps => wrapped?_ne_none hwraps hwrapped) (hown f)
          | some p =>
              exact .wrapped rfl (wraps_of_wrapped? (field_mem_sites.mp hs) hwrapped) (hown p)

theorem chainParts_chain (hchain : ∀ s ∈ chain, s ∈ set.sites) :
    set.ChainParts flat chain (chain.flatMap fun s => [(set.shape flat s).1, s.name]) := by
  induction chain with
  | nil => exact .nil
  | cons s rest ih =>
      obtain ⟨hs, hrest⟩ := List.forall_mem_cons.mp hchain
      exact .cons (hasShape_shape hs) (ih hrest)

theorem nullable_iff : s.isNullable = false ↔ ∃ f, s = .field f ∧ f.decl.label = .required := by
  cases s with
  | field f =>
      rw [Site.isNullable, bne_eq_false_iff_eq]
      exact ⟨fun h => ⟨f, rfl, h⟩, fun ⟨f', heq, h⟩ => by rwa [Site.field.inj heq]⟩
  | message m => simp [Site.isNullable]
  | group g => simp [Site.isNullable]
  | enum e => simp [Site.isNullable]

/-- The record of a chain says what it is to say. -/
theorem records_of_record? (hu : set.UniqueKeys) (hm : Site.message m ∈ set.sites)
    (hchain : set.IsChain flat m chain) (h : set.record? flat options m chain = some x) :
    set.Records flat options m chain x := by
  have hsites := mem_sites_of_isChain hu hm hchain.follows
  obtain ⟨s, hlast, rfl⟩ := Option.map_eq_some_iff.mp h
  have hs := List.mem_of_getLast? hlast
  constructor
  · exact ⟨_, _, _, hasShape_shape hm, chainParts_chain hsites, rfl⟩
  · refine ⟨s, hlast, ?_, ⟨_, hasShape_shape (hsites s hs)⟩, nullable_iff, ?_, rfl⟩
    · rcases kind_of_isChain hchain.follows s hs with hkind | hkind
      · obtain ⟨f, rfl⟩ := Site.exists_field hkind
        exact .field (FieldDecl.hasType_iff.mpr ⟨rfl, rfl, rfl⟩)
      · obtain ⟨g, rfl⟩ := Site.exists_group hkind
        exact .group
    · have hcomment : s.comment = s.home.commentAt s.path := by cases s <;> rfl
      rw [hcomment]
      exact recorded_commentAt s.home s.path

end FileSet

end SchemaGraph

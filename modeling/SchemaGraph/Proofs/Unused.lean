import SchemaGraph.Proofs.Ownership
import SchemaGraph.Proofs.Schema.Unfold
import SchemaGraph.Proofs.Canonical
import SchemaGraph.Proofs.Store.Candidates

/-!
# Which message is detected

The main result, `detectRoot_unused`: the root that is detected in a file is the only
top-level message of the file that no field is typed as, in the graph of a set and in
the flattened one (`Store.DetectsUnused`).  Flattening changes neither the root nor the
fault.

Detection goes by the edges at a message and at what it leads to.

* An edge enters a message only from a field typed as it, and is there for every such
  field (`Detectable.entered`).
* What a message leads to is entered from elsewhere only if some field is typed as the
  message (`FileSet.IsLink.source_of_unused`), so the second test of detection never
  turns down what the first one lets through.

Files may share a name.  The flattened graph is looked at in files other than the
wrappers file, whose messages it has lost.
-/

namespace SchemaGraph

/-! ## Unused messages -/

/-- Some field is typed as a message. -/
def FileSet.Uses (set : FileSet) (m : MessageSite) : Prop :=
  ∃ f ∈ set.fieldSites, f.decl.type.isMessage = true ∧ f.decl.reference = m.fullName

instance (set : FileSet) (m : MessageSite) : Decidable (set.Uses m) :=
  inferInstanceAs (Decidable
    (∃ f ∈ set.fieldSites, f.decl.type.isMessage = true ∧ f.decl.reference = m.fullName))

/-- The messages of a file that stand in no other message and that no field is typed
as. -/
def FileSet.unusedIn (set : FileSet) (file : String) : List MessageSite :=
  set.messageSites.filter fun m => decide (m.outer = [] ∧ m.file.name = file ∧ ¬ set.Uses m)

theorem FileSet.mem_unusedIn_iff {set : FileSet} {file : String} {m : MessageSite} :
    m ∈ set.unusedIn file ↔
      m ∈ set.messageSites ∧ m.outer = [] ∧ m.file.name = file ∧ ¬ set.Uses m := by
  rw [unusedIn, List.mem_filter, decide_eq_true_iff]

/-- The root of a file is its only unused message. -/
structure Store.DetectsUnused (g : Store) (set : FileSet) (file : String) : Prop where
  root : ∀ id, g.detectRoot file = .ok id ↔
    ∃ m, set.unusedIn file = [m] ∧ g.keyOf? id = some m.key
  single : ∀ m, set.unusedIn file = [m] → ∃ id, g.detectRoot file = .ok id
  missing : set.unusedIn file = [] → g.detectRoot file = .error (.noCandidate file)
  /-- Of several the fault says how many there are, and their names in order. -/
  several : 2 ≤ (set.unusedIn file).length → ∃ names,
    g.detectRoot file = .error (.candidates file names) ∧
      names.Perm ((set.unusedIn file).map MessageSite.fullName) ∧ names.Pairwise (· < ·) ∧
      (RootFault.candidates file names).message =
        "Cannot autodetect root message: " ++ toString (set.unusedIn file).length ++
          " candidates in " ++ file ++ ": " ++ Text.join ", " names

theorem RootFault.message_candidates (file : String) (names : List String) :
    (candidates file names).message =
      "Cannot autodetect root message: " ++ toString names.length ++ " candidates in " ++ file ++
        ": " ++ Text.join ", " names := rfl

namespace FileSet.IsLink

variable {set : FileSet} {m : MessageSite} {s t : Site} {edge edge' : Edge}

/-- What enters a message is a field typed as it. -/
theorem uses_of_target (h : set.IsLink s (.message m) edge) : set.Uses m := by
  cases h with
  | owner _ howner => cases howner
  | owned _ _ _ _ howned => cases MessageSite.owner_of_mem_owned howned
  | message hf htype _ hname => exact ⟨_, hf, htype, hname.symm⟩

/-- What an unused message leads to is entered from it only. -/
theorem source_of_unused (hunused : ¬ set.Uses m) (h : set.IsLink (.message m) t edge)
    (h' : set.IsLink s t edge') : s = .message m := by
  have howner : t.owner? = some (.message m) := by
    cases h with
    | owner _ howner => exact howner
  cases h' with
  | owner _ howner' => exact Option.some.inj (howner'.symm.trans howner)
  | @owned f m' _ hf htype _ hname howned =>
      have hsame := (MessageSite.owner_of_mem_owned howned).symm.trans howner
      obtain rfl := Site.message.inj (Option.some.inj hsame)
      exact absurd ⟨f, hf, htype, hname.symm⟩ hunused
  | message => cases howner
  | enum => cases howner

end FileSet.IsLink

/-- The edge from a field to the message that it is typed as. -/
theorem typeLink_mem_links {set : FileSet} {f : FieldSite} {m : MessageSite} (h : set.UniqueKeys)
    (hf : f ∈ set.fieldSites) (htype : f.decl.type.isMessage = true) (hm : m ∈ set.messageSites)
    (hname : m.fullName = f.decl.reference) :
    ⟨f.key, m.key, ⟨.typeRef, (m.element set.mapEntries).pathType, true⟩⟩ ∈ set.links := by
  refine List.mem_append_right _
    (List.mem_flatMap.mpr ⟨.field f, FileSet.field_mem_sites.mpr hf, ?_⟩)
  refine List.mem_append_left _ (mem_messageReferences_iff.mpr ⟨htype, m, ?_, ?_⟩)
  · exact h.message?_eq_some_iff.mpr ⟨hm, hname⟩
  · exact mem_messageLinks_iff.mpr (Or.inr rfl)

/-! ## Candidates -/

namespace Store

/-- What detection in a file needs of a store. -/
structure Detectable (g : Store) (set : FileSet) (file : String) : Prop where
  follows : g.Follows set
  /-- A vertex says of a message where it is declared. -/
  declared : ∀ id e, (id, e) ∈ g.elements → ∀ m ∈ set.messageSites, m.key = e.key →
    e.parent = parentName m.file m.outer ∧ e.file = m.file.name
  /-- The messages of the file are there. -/
  present : ∀ m ∈ set.messageSites, m.file.name = file → m.key ∈ g.keys
  /-- So are the edges to them from the fields typed as them. -/
  entered : ∀ m ∈ set.messageSites, m.file.name = file → set.Uses m →
    ∃ n ∈ g.namedLinks, n.target = m.key

namespace Detectable

variable {set : FileSet} {g : Store} {file : String} {id : VertexId} {e : Element}
variable {m : MessageSite}

/-- A message stands alone if no field is typed as it. -/
theorem standsAlone_iff (hu : set.UniqueKeys) (h : g.Detectable set file)
    (hmem : (id, e) ∈ g.elements) (hm : m ∈ set.messageSites) (hkey : m.key = e.key)
    (hfile : m.file.name = file) : g.standsAlone id = true ↔ ¬ set.Uses m := by
  have hsite := FileSet.message_mem_sites.mpr hm
  have hvalid := h.follows.valid
  rw [standsAlone, Bool.and_eq_true, List.isEmpty_iff, List.all_eq_true]
  constructor
  · rintro ⟨hempty, -⟩ huses
    obtain ⟨n, hn, htarget⟩ := h.entered m hm hfile huses
    obtain ⟨l, hl, hname⟩ := mem_namedLinks_iff.mp hn
    obtain ⟨-, hlkey, -⟩ := nameOf?_eq_some_iff.mp hname
    rw [htarget, hkey] at hlkey
    have hin : l ∈ g.incoming id := List.mem_filter.mpr
      ⟨hl, beq_iff_eq.mpr (hvalid.eq_of_keyOf? hlkey (hvalid.keyOf?_of_mem hmem))⟩
    rw [hempty] at hin
    exact List.not_mem_nil hin
  · intro hunused
    constructor
    · refine List.eq_nil_iff_forall_not_mem.mpr fun l hl => ?_
      obtain ⟨s, -, edge, -, hlink⟩ := h.follows.exists_source hu hmem hsite hkey hl
      exact hunused hlink.uses_of_target
    · intro l hl
      obtain ⟨t, ht, edge, htkey, hlink⟩ := h.follows.exists_target hu hmem hsite hkey hl
      obtain ⟨child, hchild, hckey⟩ := hvalid.keyOf?_eq_some_iff.mp htkey
      rw [List.all_eq_true]
      intro l' hl'
      obtain ⟨s, -, edge', hskey, hlink'⟩ :=
        h.follows.exists_source hu hchild ht hckey.symm hl'
      rw [hlink.source_of_unused hunused hlink'] at hskey
      exact beq_iff_eq.mpr (hvalid.eq_of_keyOf? hskey
        ((hvalid.keyOf?_of_mem hmem).trans (congrArg some hkey.symm)))

/-- The candidates of a file are its unused messages. -/
theorem mem_rootCandidates (hu : set.UniqueKeys) (h : g.Detectable set file) {name : String} :
    (id, name) ∈ g.rootCandidates file ↔
      ∃ m ∈ set.unusedIn file, g.keyOf? id = some m.key ∧ m.fullName = name := by
  have hvalid := h.follows.valid
  rw [mem_rootCandidates_iff]
  constructor
  · rintro ⟨e, hmem, hkind, hparent, hfile, halone, rfl⟩
    obtain ⟨s, hs, hkey⟩ := h.follows.keys _ (mem_keys_iff.mpr ⟨id, e, hmem, rfl⟩)
    obtain ⟨m, rfl⟩ := Site.exists_message ((congrArg ElementKey.kind hkey).trans hkind)
    have hm := FileSet.message_mem_sites.mp hs
    obtain ⟨hdeclared, hhome⟩ := h.declared id e hmem m hm hkey
    have houter : m.outer = [] := by
      by_contra hne
      rw [hdeclared, parentName, if_neg hne] at hparent
      cases hparent
    have hin := hhome.symm.trans hfile
    refine ⟨m, FileSet.mem_unusedIn_iff.mpr ⟨hm, houter, hin, ?_⟩, ?_, ?_⟩
    · exact (h.standsAlone_iff hu hmem hm hkey hin).mp halone
    · exact (hvalid.keyOf?_of_mem hmem).trans (congrArg some hkey.symm)
    · exact congrArg ElementKey.fullName hkey
  · rintro ⟨m, hunused, hid, rfl⟩
    obtain ⟨hm, houter, hin, hunused⟩ := FileSet.mem_unusedIn_iff.mp hunused
    obtain ⟨e, hmem, hkey⟩ := hvalid.keyOf?_eq_some_iff.mp hid
    obtain ⟨hdeclared, hhome⟩ := h.declared id e hmem m hm hkey.symm
    refine ⟨e, hmem, congrArg ElementKey.kind hkey, ?_, hhome.trans hin, ?_, ?_⟩
    · rw [hdeclared, parentName, if_pos houter]
    · exact (h.standsAlone_iff hu hmem hm hkey.symm hin).mpr hunused
    · exact congrArg ElementKey.fullName hkey

/-- Candidates differ in their names. -/
theorem nodup_names (hu : set.UniqueKeys) (h : g.Detectable set file) :
    ((g.rootCandidates file).map Prod.snd).Nodup := by
  have hvalid := h.follows.valid
  have hnodup : (g.rootCandidates file).Nodup := by
    refine List.Nodup.of_map Prod.fst ?_
    rw [rootCandidates, Ordered.sort_eq_insertionSort,
      ((List.perm_insertionSort _ _).map Prod.fst).nodup_iff, List.map_map]
    exact hvalid.vertexIds.nodup.sublist (List.filter_sublist.map _)
  refine hnodup.map_on ?_
  rintro ⟨id, name⟩ hmem ⟨id', name'⟩ hmem' rfl
  obtain ⟨m, hm, hid, hname⟩ := (h.mem_rootCandidates hu).mp hmem
  obtain ⟨m', hm', hid', hname'⟩ := (h.mem_rootCandidates hu).mp hmem'
  have hsame : m.key = m'.key := congrArg (ElementKey.mk _) (hname.trans hname'.symm)
  rw [hvalid.eq_of_keyOf? hid (hid'.trans (congrArg some hsame.symm))]

/-- The names of the candidates are those of the unused messages. -/
theorem names_perm (hu : set.UniqueKeys) (h : g.Detectable set file) :
    ((g.rootCandidates file).map Prod.snd).Perm
      ((set.unusedIn file).map MessageSite.fullName) := by
  have hnodup : ((set.unusedIn file).map MessageSite.fullName).Nodup :=
    hu.messages.sublist (List.filter_sublist.map _)
  refine (List.perm_ext_iff_of_nodup (h.nodup_names hu) hnodup).mpr fun name => ?_
  rw [List.mem_map, List.mem_map]
  constructor
  · rintro ⟨⟨id, name⟩, hmem, rfl⟩
    obtain ⟨m, hm, -, hname⟩ := (h.mem_rootCandidates hu).mp hmem
    exact ⟨m, hm, hname⟩
  · rintro ⟨m, hm, rfl⟩
    obtain ⟨hmem, -, hfile, -⟩ := FileSet.mem_unusedIn_iff.mp hm
    obtain ⟨id, e, hentry, hkey⟩ := mem_keys_iff.mp (h.present m hmem hfile)
    have hid : g.keyOf? id = some m.key := h.follows.valid.keyOf?_eq_some_iff.mpr ⟨e, hentry, hkey⟩
    exact ⟨(id, m.fullName), (h.mem_rootCandidates hu).mpr ⟨m, hm, hid, rfl⟩, rfl⟩

theorem length_rootCandidates (hu : set.UniqueKeys) (h : g.Detectable set file) :
    (g.rootCandidates file).length = (set.unusedIn file).length := by
  simpa only [List.length_map] using (h.names_perm hu).length_eq

/-- The names of the candidates are in order. -/
theorem pairwise_names (hu : set.UniqueKeys) (h : g.Detectable set file) :
    ((g.rootCandidates file).map Prod.snd).Pairwise (· < ·) := by
  have hsorted : ((g.rootCandidates file).map Prod.snd).Pairwise (· ≤ ·) := by
    rw [List.pairwise_map]
    exact Ordered.pairwise_sort_by Prod.snd _
  refine (List.pairwise_and_iff.mpr ⟨hsorted, h.nodup_names hu⟩).imp fun hboth => ?_
  exact String.not_le.mp fun hge => hboth.2 (String.le_antisymm hboth.1 hge)

/-! ## Detection -/

/-- The root of a file is its only unused message. -/
theorem detectsUnused (hu : set.UniqueKeys) (h : g.Detectable set file) :
    g.DetectsUnused set file where
  root := by
    intro id
    have hlength := h.length_rootCandidates hu
    constructor
    · intro hroot
      obtain ⟨name, hcandidates⟩ := detectRoot_eq_ok_iff.mp hroot
      have hmem : (id, name) ∈ g.rootCandidates file := by
        rw [hcandidates]
        exact List.mem_singleton_self _
      obtain ⟨m, hm, hid, -⟩ := (h.mem_rootCandidates hu).mp hmem
      rw [hcandidates, List.length_singleton] at hlength
      obtain ⟨m', hsingle⟩ := List.length_eq_one_iff.mp hlength.symm
      rw [hsingle, List.mem_singleton] at hm
      exact ⟨m, hm ▸ hsingle, hid⟩
    · rintro ⟨m, hsingle, hid⟩
      have hmem : (id, m.fullName) ∈ g.rootCandidates file := by
        refine (h.mem_rootCandidates hu).mpr ⟨m, ?_, hid, rfl⟩
        rw [hsingle]
        exact List.mem_singleton_self _
      rw [hsingle, List.length_singleton] at hlength
      obtain ⟨found, hcandidates⟩ := List.length_eq_one_iff.mp hlength
      rw [hcandidates, List.mem_singleton] at hmem
      exact detectRoot_eq_ok_iff.mpr ⟨m.fullName, hmem ▸ hcandidates⟩
  single := by
    intro m hsingle
    have hlength := h.length_rootCandidates hu
    rw [hsingle, List.length_singleton] at hlength
    obtain ⟨⟨id, name⟩, hcandidates⟩ := List.length_eq_one_iff.mp hlength
    exact ⟨id, detectRoot_eq_ok_iff.mpr ⟨name, hcandidates⟩⟩
  missing := by
    intro hnone
    have hlength := h.length_rootCandidates hu
    rw [hnone, List.length_nil] at hlength
    rw [detectRoot, List.eq_nil_of_length_eq_zero hlength]
  several := by
    intro hmany
    have hlength := h.length_rootCandidates hu
    refine ⟨(g.rootCandidates file).map Prod.snd, ?_, h.names_perm hu, h.pairwise_names hu, ?_⟩
    · exact detectRoot_of_several (hlength ▸ hmany)
    · rw [RootFault.message_candidates, List.length_map, hlength]

/-- Two stores with the same messages of a file have the same root. -/
theorem detectRoot_eq {g' : Store} (hu : set.UniqueKeys) (h : g.Detectable set file)
    (h' : g'.Detectable set file)
    (hsame : ∀ m ∈ set.unusedIn file, ∀ id, g.keyOf? id = some m.key → g'.keyOf? id = some m.key) :
    g'.detectRoot file = g.detectRoot file := by
  have hroot := h.detectsUnused hu
  have hroot' := h'.detectsUnused hu
  match hunused : set.unusedIn file with
  | [] => rw [hroot.missing hunused, hroot'.missing hunused]
  | [m] =>
    obtain ⟨id, hid⟩ := hroot.single m hunused
    obtain ⟨m', hunused', hkey⟩ := (hroot.root id).mp hid
    have hm' : m' ∈ set.unusedIn file := by
      rw [hunused']
      exact List.mem_singleton_self _
    rw [hid, (hroot'.root id).mpr ⟨m', hunused', hsame m' hm' id hkey⟩]
  | m :: m' :: rest =>
    have hmany : 2 ≤ (set.unusedIn file).length := by
      rw [hunused]
      exact Nat.le_add_left 2 _
    obtain ⟨names, hnames, hperm, hsorted, -⟩ := hroot.several hmany
    obtain ⟨names', hnames', hperm', hsorted', -⟩ := hroot'.several hmany
    have hequal : names' = names :=
      List.Perm.eq_of_pairwise (fun a b _ _ hab hba => absurd hba (String.lt_asymm hab)) hsorted'
        hsorted (hperm'.trans hperm.symm)
    rw [hnames, hnames', hequal]

end Detectable

/-! ## The stores that are built -/

variable {set : FileSet} {options : ElementKey → List CustomOption} {g : Store} {file : String}

/-- The vertex of a message, as it is declared. -/
theorem Holds.declared (hu : set.UniqueKeys)
    (h : g.Holds (set.elementsWith options) set.links) {id : VertexId} {e : Element}
    (hmem : (id, e) ∈ g.elements) {m : MessageSite} (hm : m ∈ set.messageSites)
    (hkey : m.key = e.key) : e = (Site.message m).elementWith set.mapEntries options := by
  obtain ⟨s, hs, rfl⟩ := List.mem_map.mp (h.mem hmem)
  rw [s.key_elementWith] at hkey
  rw [hu.eq_of_key hs (FileSet.message_mem_sites.mpr hm) hkey.symm]

/-- A root can be detected in any file. -/
theorem Holds.detectable (hu : set.UniqueKeys)
    (h : g.Holds (set.elementsWith options) set.links) (file : String) :
    g.Detectable set file where
  follows := h.follows hu
  declared := by
    intro id e hmem m hm hkey
    rw [h.declared hu hmem hm hkey]
    exact ⟨rfl, rfl⟩
  present := by
    intro m hm _
    obtain ⟨id, hid⟩ := h.exists_id (List.mem_map_of_mem (FileSet.message_mem_sites.mpr hm))
    exact mem_keys_iff.mpr ⟨id, _, hid, (Site.message m).key_elementWith _ _⟩
  entered := by
    rintro m hm - ⟨f, hf, htype, hname⟩
    exact ⟨_, h.links.mem_iff.mpr (typeLink_mem_links hu hf htype hm hname.symm), rfl⟩

end Store

namespace Drawn

open Store

variable {set : FileSet} {options : ElementKey → List CustomOption} {g : Store} {file : String}
variable {id : VertexId} {e : Element} {m : MessageSite}

/-- A message of another file than the wrappers file keeps its vertex and its number. -/
theorem message_mem_flatten (h : Drawn set options g) (hmem : (id, e) ∈ g.elements)
    (hm : m ∈ set.messageSites) (hkey : m.key = e.key) (hout : m.file.name ≠ wrappersFile) :
    (id, e) ∈ g.flatten.elements := by
  obtain rfl := h.holds.declared h.names.uniqueKeys hmem hm hkey
  refine h.flattenable.flattened.kept id _ hmem ?_ rfl
  rw [← Bool.not_eq_true, isWrapped_elementWith]
  exact hout

/-- A root can be detected in any file but the wrappers file once wrapper messages are
flattened. -/
theorem detectable_flatten (h : Drawn set options g) (hfile : file ≠ wrappersFile) :
    g.flatten.Detectable set file where
  follows := h.follows_flatten
  declared := by
    intro id e hmem m hm hkey
    have hbefore := h.holds.detectable h.names.uniqueKeys file
    have hsite := FileSet.message_mem_sites.mpr hm
    have hout := (h.mem_keys_flatten_iff hsite).mp (mem_keys_iff.mpr ⟨id, e, hmem, hkey.symm⟩)
    obtain ⟨id', hid'⟩ := h.exists_id hsite
    have hkey' := (Site.message m).key_elementWith set.mapEntries options
    have hmem' := h.message_mem_flatten hid' hm hkey'.symm hout
    obtain ⟨-, rfl⟩ := h.follows_flatten.valid.eq_of_key hmem hmem' (hkey.symm.trans hkey'.symm)
    exact hbefore.declared id' _ hid' m hm hkey
  present := by
    intro m hm hin
    refine (h.mem_keys_flatten_iff (FileSet.message_mem_sites.mpr hm)).mpr fun hwrapped => ?_
    exact hfile (hin.symm.trans hwrapped)
  entered := by
    rintro m hm hin ⟨f, hf, htype, hname⟩
    have hlink := h.holds.links.mem_iff.mpr
      (typeLink_mem_links h.names.uniqueKeys hf htype hm hname.symm)
    -- A field of the wrappers file is not typed as a message.
    have hsource : ¬ (Site.field f).isWrapped := by
      intro hwrapped
      rw [h.type_of_wrapped hf hwrapped] at htype
      cases htype
    have htarget : ¬ (Site.message m).isWrapped := fun hwrapped => hfile (hin.symm.trans hwrapped)
    have houtside := h.isOutside_of_sites (FileSet.field_mem_sites.mpr hf)
      (FileSet.message_mem_sites.mpr hm) hsource htarget
    refine ⟨_, h.flattenable.flattened.links.mem_iff.mpr (List.mem_map_of_mem
      (List.mem_filter.mpr ⟨hlink, houtside _⟩)), target_relabel _ _⟩

/-- Flattening does not change which root is detected. -/
theorem detectRoot_flatten (h : Drawn set options g) (hfile : file ≠ wrappersFile) :
    g.flatten.detectRoot file = g.detectRoot file := by
  have hu := h.names.uniqueKeys
  refine (h.holds.detectable hu file).detectRoot_eq hu (h.detectable_flatten hfile) ?_
  intro m hunused id hid
  obtain ⟨hm, -, hin, -⟩ := FileSet.mem_unusedIn_iff.mp hunused
  obtain ⟨e, hmem, hkey⟩ := h.holds.valid.keyOf?_eq_some_iff.mp hid
  have hkept := h.message_mem_flatten hmem hm hkey.symm fun heq => hfile (hin.symm.trans heq)
  exact h.follows_flatten.valid.keyOf?_eq_some_iff.mpr ⟨e, hkept, hkey⟩

end Drawn

/-- In the graph of a set, with or without options attached, the root of a file is its
only unused message.  It is so in the flattened graph too, if wrapper messages are plain
and the file is not theirs, and with the same root. -/
theorem detectRoot_unused {set : FileSet} {registry : Registry}
    {encoded : List (ElementKey × List UInt8)} {g : Store} {n : Nat} (h : set.UniqueNames)
    (hattach : Draft.attach registry encoded (Draft.ofSet set).store = .ok (g, n))
    (file : String) :
    g.DetectsUnused set file ∧
      (set.PlainWrappers → file ≠ wrappersFile →
        g.flatten.DetectsUnused set file ∧ g.flatten.detectRoot file = g.detectRoot file) := by
  have hu := h.uniqueKeys
  refine ⟨((holds_attached hu hattach).detectable hu file).detectsUnused hu, ?_⟩
  intro hwrappers hfile
  have hdrawn := drawn_attached h hwrappers hattach
  exact ⟨(hdrawn.detectable_flatten hfile).detectsUnused hu, hdrawn.detectRoot_flatten hfile⟩

/-- A file with one unused message, one with two, and the wrappers file. -/
def orchardSet : FileSet where
  files :=
    [{ name := wrappersFile
       package := "google.protobuf"
       messages :=
         [{ name := "StringValue", fields := [{ name := "value", number := 1, type := .string }]
            nested := [], enums := [], extensions := [], oneofs := [], isMapEntry := false }] },
     { name := "orchard/tree.proto"
       package := "orchard"
       messages :=
         [{ name := "Leaf", fields := [], nested := [], enums := [], extensions := [], oneofs := []
            isMapEntry := false },
          { name := "Tree"
            fields :=
              [{ name := "leaf", number := 1, type := .message, typeName := some ".orchard.Leaf" },
               { name := "label", number := 2, type := .message
                 typeName := some ".google.protobuf.StringValue" }]
            nested := [], enums := [], extensions := [], oneofs := [], isMapEntry := false }] },
     { name := "orchard/fruit.proto"
       package := "orchard"
       messages :=
         [{ name := "Plum", fields := [], nested := [], enums := [], extensions := [], oneofs := []
            isMapEntry := false },
          { name := "Apple", fields := [], nested := [], enums := [], extensions := [], oneofs := []
            isMapEntry := false }] }]

/-- The tree is detected before and after flattening; of the fruit neither is. -/
theorem detectRoot_unused_orchardSet :
    orchardSet.UniqueNames ∧ orchardSet.PlainWrappers ∧
      Draft.attach (Registry.ofSet orchardSet) [] (Draft.ofSet orchardSet).store =
        .ok ((Draft.ofSet orchardSet).store, 0) ∧
      (orchardSet.unusedIn "orchard/tree.proto").map MessageSite.fullName = ["orchard.Tree"] ∧
      (∃ id, (Draft.ofSet orchardSet).store.detectRoot "orchard/tree.proto" = .ok id ∧
        (Draft.ofSet orchardSet).store.flatten.detectRoot "orchard/tree.proto" = .ok id) ∧
      ∃ names, (Draft.ofSet orchardSet).store.detectRoot "orchard/fruit.proto" =
          .error (.candidates "orchard/fruit.proto" names) ∧
        names.Perm ["orchard.Plum", "orchard.Apple"] ∧ names.Pairwise (· < ·) := by
  have hnames : orchardSet.UniqueNames := by decide +kernel
  have hwrappers : orchardSet.PlainWrappers := by decide +kernel
  have hattach : Draft.attach (Registry.ofSet orchardSet) [] (Draft.ofSet orchardSet).store =
      .ok ((Draft.ofSet orchardSet).store, 0) := rfl
  have htree : (orchardSet.unusedIn "orchard/tree.proto").map MessageSite.fullName =
      ["orchard.Tree"] := by decide +kernel
  have hfruit : (orchardSet.unusedIn "orchard/fruit.proto").map MessageSite.fullName =
      ["orchard.Plum", "orchard.Apple"] := by decide +kernel
  refine ⟨hnames, hwrappers, hattach, htree, ?_, ?_⟩
  · obtain ⟨hplain, hflat⟩ := detectRoot_unused hnames hattach "orchard/tree.proto"
    obtain ⟨-, hsame⟩ := hflat hwrappers (by decide)
    obtain ⟨m, hsingle, -⟩ := List.map_eq_singleton_iff.mp htree
    obtain ⟨id, hid⟩ := hplain.single m hsingle
    exact ⟨id, hid, hsame.trans hid⟩
  · obtain ⟨hplain, -⟩ := detectRoot_unused hnames hattach "orchard/fruit.proto"
    have hmany : 2 ≤ (orchardSet.unusedIn "orchard/fruit.proto").length := by decide +kernel
    obtain ⟨names, hfault, hperm, hsorted, -⟩ := hplain.several hmany
    rw [hfruit] at hperm
    exact ⟨names, hfault, hperm, hsorted⟩

end SchemaGraph

import SchemaGraph.Proofs.SchemaFields
import SchemaGraph.Proofs.Store.Paths
import SchemaGraph.Proofs.WithoutOptions

/-!
# Field paths tell field walks apart

A field path joins path types and names with dots.  Path types may have dots themselves,
and messages with different full names may share one, so the types are no help.  What
tells two walks apart are the names:

* path types are written in brackets and names are without them, so the names can be read
  off a field path (`FileSet.pathNames_chainPath`);
* what follows a declaration has a full name that is known from the declaration and the
  simple name (`FileSet.Continues.fullName`), so a chain is known from its names
  (`FileSet.UniqueNames.chain_eq`);
* a walk is known from the chain it spells (`Store.Unfolds.walk_unique`).

The main result, `fieldPath_injective`, is about all walks along steps from the root,
simple ones or not, and so about the field paths of all vertices together.
-/

namespace SchemaGraph

/-- No declared name has an opening bracket, as no name of letters, digits and underscores
has. -/
def FileSet.BracketFree (set : FileSet) : Prop := ∀ s ∈ set.sites, '[' ∉ s.name.toList

instance (set : FileSet) : Decidable set.BracketFree :=
  inferInstanceAs (Decidable (∀ s ∈ set.sites, '[' ∉ s.name.toList))

/-- Whether a segment of a field path has an opening bracket. -/
def isBracketed (piece : String) : Bool := decide ('[' ∈ piece.toList)

/-- The segments of a field path without an opening bracket. -/
def pathNames (path : String) : List String :=
  (Text.segments '.' path).filter fun piece => !isBracketed piece

theorem Text.notMem_replace (s : String) : '.' ∉ (replace '.' '_' s).toList := by
  rw [replace, String.toList_map, List.mem_map]
  rintro ⟨c, -, hc⟩
  split at hc
  · cases hc
  · next hne => exact hne hc

/-! ## The names in a field path -/

section Names

variable {set : FileSet} {flat : Bool} {s t : Site} {m : MessageSite} {chain chain' : List Site}

theorem FieldDecl.notMem_tag (f : FieldDecl) : '.' ∉ f.tag.toList := by
  rw [FieldDecl.tag]
  split
  all_goals first | decide | exact Text.notMem_replace _

theorem pathNames_append (a b : String) :
    pathNames (a ++ "." ++ b) = pathNames a ++ pathNames b := by
  rw [pathNames, Text.segments_append, List.filter_append]
  rfl

/-- The names in what is joined are those in its parts. -/
theorem pathNames_join {parts : List String} (h : parts ≠ []) :
    pathNames (Text.join "." parts) = parts.flatMap pathNames := by
  induction parts with
  | nil => exact absurd rfl h
  | cons first rest ih =>
      cases rest with
      | nil => simp [Text.join]
      | cons second rest =>
          have hjoin : Text.join "." (first :: second :: rest) =
              first ++ "." ++ Text.join "." (second :: rest) := by
            rw [Text.join, String.intercalate_cons_cons]
            rfl
          rw [hjoin, pathNames_append, ih (List.cons_ne_nil _ _)]
          exact List.flatMap_cons.symm

theorem pathNames_name {name : String} (hdot : '.' ∉ name.toList) (hbracket : '[' ∉ name.toList) :
    pathNames name = [name] := by
  rw [pathNames, Text.segments_of_notMem hdot]
  simp [isBracketed, hbracket]

theorem pathNames_typeTag {tag : String} (h : '.' ∉ tag.toList) : pathNames (typeTag tag) = [] := by
  have hdot : '.' ∉ (typeTag tag).toList := by simp [typeTag, h]
  rw [pathNames, Text.segments_of_notMem hdot]
  simp [isBracketed, typeTag]

/-- There are no names in the path type of a declaration. -/
theorem FileSet.pathNames_shape (set : FileSet) (flat : Bool) (s : Site) :
    pathNames (set.shape flat s).1 = [] := by
  have hpair {outer tag : String} (houter : '.' ∉ outer.toList) (h : '.' ∉ tag.toList) :
      pathNames (typeTag outer ++ "." ++ typeTag tag) = [] := by
    rw [pathNames_append, pathNames_typeTag houter, pathNames_typeTag h]
    rfl
  cases s with
  | message m => exact pathNames_typeTag (Text.notMem_replace _)
  | group g => exact pathNames_typeTag (by decide)
  | enum e => exact pathNames_typeTag (by decide)
  | field f =>
      show pathNames ((set.shown flat f).decl.shape set.mapEntries).1 = []
      generalize (set.shown flat f).decl = d
      rw [FieldDecl.shape]
      split
      · exact hpair (by decide) d.notMem_tag
      · split
        · exact hpair (by decide) d.notMem_tag
        · exact pathNames_typeTag d.notMem_tag

/-- The names in the path of a chain are those of its declarations, after what is left of
the version. -/
theorem FileSet.pathNames_chainPath (hnames : ∀ s ∈ chain, '.' ∉ s.name.toList ∧
      '[' ∉ s.name.toList) :
    pathNames (set.chainPath flat m chain) = "0]" :: chain.map Site.name := by
  -- The dot in the version is the only one that stands inside brackets.
  have hversion : pathNames "[version=2.0]" = ["0]"] := by decide +kernel
  have hsteps : (chain.flatMap fun s => [(set.shape flat s).1, s.name]).flatMap pathNames =
      chain.map Site.name := by
    rw [List.flatMap_assoc, ← List.flatMap_pure_eq_map]
    refine List.flatMap_congr fun s hs => ?_
    rw [List.flatMap_cons, List.flatMap_singleton, set.pathNames_shape flat s,
      pathNames_name (hnames s hs).1 (hnames s hs).2]
    rfl
  rw [chainPath, pathNames_join (List.cons_ne_nil _ _), List.flatMap_cons, List.flatMap_cons,
    hversion, set.pathNames_shape flat (.message m), hsteps]
  rfl

/-! ## Chains with the same names -/

/-- The full name in front of the names of what follows a declaration. -/
def Site.scope : Site → String
  | .message m => m.fullName
  | .field f => f.decl.reference
  | .group g => g.message.fullName
  | .enum e => e.fullName

theorem MessageSite.fullName_of_mem_owned (hs : s ∈ m.owned) :
    s.fullName = qualify m.fullName s.name := by
  rcases mem_owned_iff.mp hs with ⟨f, hf, -, rfl⟩ | ⟨g, hg, rfl⟩
  · rw [← message_of_mem_fields hf]
    rfl
  · rw [← message_of_mem_groups hg]
    rfl

theorem FileSet.Continues.fullName (h : set.Continues flat s t) :
    t.fullName = qualify s.scope t.name := by
  cases h with
  | message ht => exact MessageSite.fullName_of_mem_owned ht
  | @group g f hf _ =>
      show qualify f.message.fullName f.decl.name = qualify g.message.fullName f.decl.name
      rw [MessageSite.message_of_mem_fields hf]
  | field _ _ hname _ ht =>
      rw [MessageSite.fullName_of_mem_owned ht, ← FieldDecl.refersTo_iff.mp hname]
      rfl

/-- A chain is known from what it starts after and its names. -/
theorem FileSet.UniqueNames.chain_eq (h : set.UniqueNames) (hs : s ∈ set.sites)
    (hchain : (s :: chain).IsChain (set.Continues flat))
    (hchain' : (s :: chain').IsChain (set.Continues flat))
    (hnames : chain.map Site.name = chain'.map Site.name) : chain = chain' := by
  induction chain generalizing s chain' with
  | nil => exact (List.map_eq_nil_iff.mp hnames.symm).symm
  | cons t rest ih =>
      cases chain' with
      | nil => cases hnames
      | cons t' rest' =>
          obtain ⟨hname, hrest⟩ := List.cons.inj hnames
          obtain ⟨hfirst, hlater⟩ := List.isChain_cons_cons.mp hchain
          obtain ⟨hfirst', hlater'⟩ := List.isChain_cons_cons.mp hchain'
          have ht : t ∈ set.sites := (hfirst.link h.uniqueKeys hs).1
          have ht' : t' ∈ set.sites := (hfirst'.link h.uniqueKeys hs).1
          -- Both have the full name that their common predecessor gives to the simple name.
          obtain rfl : t = t' := List.inj_on_of_nodup_map h ht ht'
            (by rw [hfirst.fullName, hfirst'.fullName, hname])
          rw [ih ht hlater hlater' hrest]

/-- Different chains below a message have different paths. -/
theorem FileSet.chainPath_injective (hids : set.Identifiers) (hbrackets : set.BracketFree)
    (h : set.UniqueNames) (hm : Site.message m ∈ set.sites)
    (hchain : (.message m :: chain).IsChain (set.Continues flat))
    (hchain' : (.message m :: chain').IsChain (set.Continues flat))
    (hpath : set.chainPath flat m chain = set.chainPath flat m chain') : chain = chain' := by
  have hread {chain : List Site} (hchain : (.message m :: chain).IsChain (set.Continues flat)) :
      pathNames (set.chainPath flat m chain) = "0]" :: chain.map Site.name :=
    pathNames_chainPath fun s hs =>
      have hsite := mem_sites_of_isChain h.uniqueKeys hm hchain s hs
      ⟨(hids s hsite).2, hbrackets s hsite⟩
  have hnames : "0]" :: chain.map Site.name = "0]" :: chain'.map Site.name := by
    rw [← hread hchain, ← hread hchain', hpath]
  exact h.chain_eq hm hchain hchain' (List.cons.inj hnames).2

/-- The path in the record of a chain. -/
theorem FileSet.IsChain.map_fieldPath_record? (h : set.IsChain flat m chain)
    (options : ElementKey → List CustomOption) :
    (set.record? flat options m chain).map SchemaField.fieldPath =
      some (set.chainPath flat m chain) := by
  obtain ⟨s, hs⟩ := Option.ne_none_iff_exists'.mp (mt List.getLast?_eq_none_iff.mp h.nonempty)
  rw [record?, hs]
  rfl

end Names

/-! ## Walks along steps -/

namespace Store

/-- A path along steps from a vertex, which may visit a vertex more than once. -/
structure IsFieldWalk (g : Store) (source : VertexId) (p : Path) : Prop where
  joins : g.Joins p.vertices p.links
  first : p.source? = some source
  fields : g.followsFields p = true

variable {g : Store} {source target v : VertexId} {links : List Link} {p : Path}

theorem Walk.of_all {follow : Edge → Bool} (h : g.Walk (fun _ => true) v links)
    (hall : ∀ l ∈ links, follow l.edge = true) : g.Walk follow v links := by
  induction h with
  | nil v => exact Walk.nil v
  | cons hl _ _ ih =>
      obtain ⟨hfirst, hrest⟩ := List.forall_mem_cons.mp hall
      exact Walk.cons hl hfirst (ih hrest)

theorem IsFieldWalk.exists_walk (hg : g.Valid) (h : g.IsFieldWalk source p) :
    ∃ links, g.Walk isStep source links ∧ p = Path.ofLinks source links := by
  obtain ⟨hjoins, hfirst, hfields⟩ := h
  obtain ⟨vertices, ids⟩ := p
  -- The edges of a path are joined whatever their kinds; that they are steps comes on top.
  obtain ⟨v, links, hwalk, rfl, rfl⟩ := (joins_iff hg).mp hjoins
  obtain rfl : v = source := Option.some.inj hfirst
  have hall := (followsFields_ofLinks (v := v) hg fun l hl => (hwalk.of_mem hl).1).symm.trans hfields
  exact ⟨links, hwalk.of_all (List.all_eq_true.mp hall), rfl⟩

/-- The paths that are listed are among them. -/
theorem isFieldWalk_of_mem_fieldPaths (hg : g.Valid) (h : p ∈ g.fieldPaths source target) :
    g.IsFieldWalk source p := by
  rw [fieldPaths_eq hg, List.mem_filter] at h
  obtain ⟨hpath, hfields⟩ := h
  obtain ⟨hjoins, hfirst, -, -⟩ := (mem_paths_iff hg).mp hpath
  exact ⟨hjoins, hfirst, hfields⟩

end Store

/-! ## Finished graphs -/

namespace RootedGraph.Unfolds

variable {set : FileSet} {flat : Bool} {options : ElementKey → List CustomOption}
variable {r : RootedGraph} {m : MessageSite}

/-- Walks with the same field path are the same. -/
theorem injOn_fieldPath (h : r.Unfolds set flat options m) (hids : set.Identifiers)
    (hbrackets : set.BracketFree) (hnames : set.UniqueNames) (dataset : Option String) :
    Set.InjOn (Visit.fieldPath ⟨r, dataset⟩) {p | r.store.IsFieldWalk r.rootId p} := by
  have hvalid := h.store.follows.valid
  intro p hp q hq hsame
  obtain ⟨links, hwalk, rfl⟩ := Store.IsFieldWalk.exists_walk hvalid hp
  obtain ⟨links', hwalk', rfl⟩ := Store.IsFieldWalk.exists_walk hvalid hq
  obtain ⟨chain, hspells, hchain⟩ :=
    h.store.exists_chain h.uniqueKeys hwalk h.message h.keyOf?_root
  obtain ⟨chain', hspells', hchain'⟩ :=
    h.store.exists_chain h.uniqueKeys hwalk' h.message h.keyOf?_root
  rw [h.fieldPath_eq dataset hwalk hspells, h.fieldPath_eq dataset hwalk' hspells'] at hsame
  obtain rfl := FileSet.chainPath_injective hids hbrackets hnames h.message hchain hchain' hsame
  rw [h.store.walk_unique h.uniqueKeys hwalk hwalk' hspells hspells']

/-- No two records have the same field path. -/
theorem nodup_fieldPath (h : r.Unfolds set flat options m) (hids : set.Identifiers)
    (hbrackets : set.BracketFree) (hnames : set.UniqueNames) :
    ((SchemaField.all r).map SchemaField.fieldPath).Nodup := by
  obtain ⟨chains, hnodup, hchains, hrecords⟩ := h.records
  -- The records are in the order of their chains, and each has the path of its chain.
  have hpaths : ((SchemaField.all r).map SchemaField.fieldPath).map some =
      chains.map fun chain => some (set.chainPath flat m chain) := by
    calc ((SchemaField.all r).map SchemaField.fieldPath).map some
        = ((SchemaField.all r).map some).map (Option.map SchemaField.fieldPath) := by
          rw [List.map_map, List.map_map]
          rfl
      _ = chains.map fun chain =>
            (set.record? flat options m chain).map SchemaField.fieldPath := by
          rw [hrecords, List.map_map]
          rfl
      _ = _ := List.map_congr_left fun chain hchain =>
          ((hchains chain).mp hchain).map_fieldPath_record? options
  refine List.Nodup.of_map some ?_
  rw [hpaths]
  refine List.Nodup.map_on (fun chain hchain chain' hchain' hsame => ?_) hnodup
  exact FileSet.chainPath_injective hids hbrackets hnames h.message
    ((hchains chain).mp hchain).follows ((hchains chain').mp hchain').follows
    (Option.some.inj hsame)

end RootedGraph.Unfolds

/-- Different walks along steps from the root of a finished graph have different field
paths, so no two records of its flattened schema have the same one. -/
theorem fieldPath_injective {set : FileSet} {options : GraphOptions} {g : Store} {n : Nat}
    {encoded : List (ElementKey × List UInt8)} {r : RootedGraph} (hids : set.Identifiers)
    (hbrackets : set.BracketFree) (h : set.UniqueNames) (hwrappers : set.PlainWrappers)
    (hattach : Draft.attach (Registry.ofSet set) encoded (Draft.ofSet set).store = .ok (g, n))
    (hbuild : RootedGraph.build set options g = .ok r) (dataset : Option String) :
    Set.InjOn (Visit.fieldPath ⟨r, dataset⟩) {p | r.store.IsFieldWalk r.rootId p} ∧
      (∀ id, ∀ p ∈ r.store.fieldPaths r.rootId id, r.store.IsFieldWalk r.rootId p) ∧
      ((SchemaField.all r).map SchemaField.fieldPath).Nodup := by
  obtain ⟨m, hunfolds, -, -⟩ := RootedGraph.exists_unfolds hids h hwrappers hattach hbuild
  exact ⟨hunfolds.injOn_fieldPath hids hbrackets h dataset,
    fun id p => Store.isFieldWalk_of_mem_fieldPaths hunfolds.store.follows.valid,
    hunfolds.nodup_fieldPath hids hbrackets h⟩

/-- Two messages whose full names differ, but whose path types do not, with fields of one
name, one of which is typed as a wrapper. -/
def alikeTags : FileSet where
  files :=
    [{ name := wrappersFile
       messages :=
         [{ name := "S"
            fields := [{ name := "v", number := 1, type := .string }]
            nested := []
            enums := []
            extensions := []
            oneofs := []
            isMapEntry := false }] },
     { name := "r.proto"
       messages :=
         [{ name := "R"
            fields :=
              [{ name := "x", number := 1, type := .message, typeName := some ".A.B" },
               { name := "y", number := 2, type := .message, typeName := some ".A_B" }]
            nested := []
            enums := []
            extensions := []
            oneofs := []
            isMapEntry := false },
          { name := "A_B"
            fields := [{ name := "n", number := 1, type := .message, typeName := some ".S" }]
            nested := []
            enums := []
            extensions := []
            oneofs := []
            isMapEntry := false },
          { name := "A"
            fields := []
            nested :=
              [{ name := "B"
                 fields := [{ name := "n", number := 1, type := .int32, label := .repeated }]
                 nested := []
                 enums := []
                 extensions := []
                 oneofs := []
                 isMapEntry := false }]
            enums := []
            extensions := []
            oneofs := []
            isMapEntry := false }] }]

/-- The names of the fields that hold the two messages tell the paths apart. -/
theorem fieldPath_injective_alikeTags :
    alikeTags.Identifiers ∧ alikeTags.BracketFree ∧ alikeTags.UniqueNames ∧
      alikeTags.PlainWrappers ∧
      Draft.attach (Registry.ofSet alikeTags) [] (Draft.ofSet alikeTags).store =
        .ok ((Draft.ofSet alikeTags).store, 0) ∧
      ∃ r, RootedGraph.build alikeTags { messageName := some "R" } (Draft.ofSet alikeTags).store =
          .ok r ∧
        (SchemaField.all r).map SchemaField.fieldPath =
          ["[version=2.0].[type=R].[type=A_B].x", "[version=2.0].[type=R].[type=A_B].y",
            "[version=2.0].[type=R].[type=A_B].y.[type=string].n",
            "[version=2.0].[type=R].[type=A_B].x.[type=array].[type=int].n"] ∧
        Set.InjOn (Visit.fieldPath ⟨r, none⟩) {p | r.store.IsFieldWalk r.rootId p} ∧
        (∀ id, ∀ p ∈ r.store.fieldPaths r.rootId id, r.store.IsFieldWalk r.rootId p) ∧
        ((SchemaField.all r).map SchemaField.fieldPath).Nodup := by
  have hids : alikeTags.Identifiers := by decide +kernel
  have hbrackets : alikeTags.BracketFree := by decide +kernel
  have hnames : alikeTags.UniqueNames := by decide +kernel
  have hwrappers : alikeTags.PlainWrappers := by decide +kernel
  have hattach : Draft.attach (Registry.ofSet alikeTags) [] (Draft.ofSet alikeTags).store =
      .ok ((Draft.ofSet alikeTags).store, 0) := rfl
  have hpaths : (RootedGraph.build alikeTags { messageName := some "R" }
      (Draft.ofSet alikeTags).store).map (fun r =>
        (SchemaField.all r).map SchemaField.fieldPath) =
      .ok ["[version=2.0].[type=R].[type=A_B].x", "[version=2.0].[type=R].[type=A_B].y",
        "[version=2.0].[type=R].[type=A_B].y.[type=string].n",
        "[version=2.0].[type=R].[type=A_B].x.[type=array].[type=int].n"] := by decide +kernel
  obtain ⟨r, hbuild, hpaths⟩ := exists_of_map_ok hpaths
  exact ⟨hids, hbrackets, hnames, hwrappers, hattach, r, hbuild, hpaths,
    fieldPath_injective hids hbrackets hnames hwrappers hattach hbuild none⟩

end SchemaGraph

import SchemaGraph.Proofs.Canonical
import SchemaGraph.Proofs.Record
import SchemaGraph.Proofs.WithoutOptions
import SchemaGraph.Proofs.Flatten.Leftover
import SchemaGraph.Proofs.Schema.Faithful
import SchemaGraph.Proofs.Schema.Present

/-!
# Equal graphs

The canonical form says which graph it is of: its lines are sorted apart by their
first letter, the line of an element is its record (`Element.eq_of_compact`), and that
of a link is read from both ends (`PendingLink.eq_of_line`), since names of vertices
contain no bar where no declared name does.  So graphs that are built from bytes are
equal if and only if they agree in all that identity is to tell apart
(`RootedGraph.same_iff`).

Options that are infinite or NaN doubles are left out: all of them are written alike
(`RootedGraph.same_of_infinities`).
-/

namespace SchemaGraph

/-! ## Lines -/

section Lines

variable {α β : Type}

/-- A permutation of what a function makes of lists is one of the lists, if the
function tells their members apart. -/
theorem perm_of_map_perm {f : α → β} {as as' : List α}
    (hf : ∀ a ∈ as, ∀ a' ∈ as', f a = f a' → a = a') (h : (as.map f).Perm (as'.map f)) :
    as.Perm as' := by
  induction as generalizing as' with
  | nil => rw [List.map_nil, List.nil_perm, List.map_eq_nil_iff] at h; rw [h]
  | cons a as ih =>
      -- The image of the first member is found in the other list and taken out of it.
      obtain ⟨a', ha', heq⟩ := List.mem_map.mp (h.mem_iff.mp (List.mem_cons_self (a := f a)))
      obtain rfl := hf a List.mem_cons_self a' ha' heq.symm
      obtain ⟨before, after, rfl⟩ := List.append_of_mem ha'
      refine List.Perm.trans (List.Perm.cons a (ih (fun b hb b' hb' => ?_) ?_)) List.perm_middle.symm
      · refine hf b (List.mem_cons_of_mem _ hb) b' ?_
        simp only [List.mem_append, List.mem_cons] at hb' ⊢
        tauto
      · rw [List.map_append, List.map_cons, List.map_cons] at h
        rw [List.map_append]
        exact (h.trans List.perm_middle).cons_inv

end Lines

theorem EdgeKind.name_injective : Function.Injective EdgeKind.name := by
  intro k k' h
  cases k <;> cases k' <;> first | rfl | simp [EdgeKind.name] at h

theorem ElementKind.name_injective : Function.Injective ElementKind.name := by
  intro k k' h
  cases k <;> cases k' <;> first | rfl | simp [ElementKind.name] at h

/-- The kind ends at the first colon. -/
theorem ElementKey.text_injective : Function.Injective ElementKey.text := by
  rintro ⟨kind, fullName⟩ ⟨kind', fullName'⟩ h
  have hcolon (kind : ElementKind) : ∀ c ∈ kind.name.toList, (c != ':') = true := by
    cases kind <;> simp [ElementKind.name]
  have hlists := congrArg String.toList h
  simp only [text, String.toList_append, List.append_assoc] at hlists
  obtain ⟨hkind, hname⟩ := append_inj_of_forall hlists (hcolon kind) (hcolon kind')
    (by simp) (by simp)
  rw [ElementKind.name_injective (String.toList_inj.mp hkind),
    String.toList_inj.mp (List.append_cancel_left hname)]

/-- An identity whose name contains no bar. -/
def ElementKey.IsBarFree (key : ElementKey) : Prop := '|' ∉ key.fullName.toList

theorem ElementKey.IsBarFree.forall_text {key : ElementKey} (h : key.IsBarFree) :
    ∀ c ∈ key.text.toList, (c != '|') = true := by
  have hkind : '|' ∉ key.kind.name.toList := by cases key.kind <;> simp [ElementKind.name]
  intro c hc
  rw [bne_iff_ne]
  rintro rfl
  simp only [text, String.toList_append, List.mem_append] at hc
  rcases hc with (hc | hc) | hc
  · exact hkind hc
  · simp at hc
  · exact h hc

namespace PendingLink

theorem toList_line (n : PendingLink) :
    n.line.toList = 'E' :: '|' :: (n.source.text.toList ++ '|' :: (n.target.text.toList ++
      '|' :: (n.edge.kind.name.toList ++ '|' :: (n.edge.type.toList ++
        '|' :: (RootedGraph.flagText n.edge.isMessageType).toList)))) := by
  have hline : n.line = "E" ++ "|" ++ n.source.text ++ "|" ++ n.target.text ++ "|" ++
      n.edge.kind.name ++ "|" ++ n.edge.type ++ "|" ++ RootedGraph.flagText n.edge.isMessageType :=
    rfl
  rw [hline]
  simp

/-- The flag is what stands at the end, whatever the type is. -/
theorem eq_of_flagText {type type' : List Char} {flag flag' : Bool}
    (h : type ++ '|' :: (RootedGraph.flagText flag).toList =
      type' ++ '|' :: (RootedGraph.flagText flag').toList) : type = type' ∧ flag = flag' := by
  -- A type may contain bars, so the flag is read from the end.
  have hflag : flag = flag' := by
    have hreverse := congrArg List.reverse h
    cases flag <;> cases flag' <;> simp [RootedGraph.flagText] at hreverse ⊢
  rw [hflag] at h
  exact ⟨List.append_cancel_right h, hflag⟩

/-- A link is known by its line, if no name contains a bar. -/
theorem eq_of_line {n n' : PendingLink} (hsource : n.source.IsBarFree)
    (htarget : n.target.IsBarFree) (hsource' : n'.source.IsBarFree)
    (htarget' : n'.target.IsBarFree) (h : n.line = n'.line) : n = n' := by
  have hkind (kind : EdgeKind) : ∀ c ∈ kind.name.toList, (c != '|') = true := by
    cases kind <;> simp [EdgeKind.name]
  have hlists := congrArg String.toList h
  rw [toList_line, toList_line] at hlists
  have hbar (rest : List Char) : ∀ c ∈ ('|' :: rest).head?, (c != '|') = false := by simp
  obtain ⟨hs, hrest⟩ := append_inj_of_forall (List.cons.inj (List.cons.inj hlists).2).2
    hsource.forall_text hsource'.forall_text (hbar _) (hbar _)
  obtain ⟨ht, hrest⟩ := append_inj_of_forall (List.cons.inj hrest).2 htarget.forall_text
    htarget'.forall_text (hbar _) (hbar _)
  obtain ⟨hk, hrest⟩ := append_inj_of_forall (List.cons.inj hrest).2 (hkind _) (hkind _)
    (hbar _) (hbar _)
  obtain ⟨htype, hflag⟩ := eq_of_flagText (List.cons.inj hrest).2
  obtain ⟨source, target, ⟨kind, type, flag⟩⟩ := n
  obtain ⟨source', target', ⟨kind', type', flag'⟩⟩ := n'
  simp only [PendingLink.mk.injEq, Edge.mk.injEq]
  exact ⟨ElementKey.text_injective (String.toList_inj.mp hs),
    ElementKey.text_injective (String.toList_inj.mp ht),
    EdgeKind.name_injective (String.toList_inj.mp hk), String.toList_inj.mp htype, hflag⟩

end PendingLink

namespace RootedGraph

theorem head?_elementLine (e : Element) : (elementLine e).toList.head? = some 'V' := by
  rw [elementLine, String.toList_append]
  rfl

theorem elementLine_inj {e e' : Element} (h : e.HasFiniteOptions) (h' : e'.HasFiniteOptions)
    (hline : elementLine e = elementLine e') : e = e' := by
  have hlists := congrArg String.toList hline
  rw [elementLine, elementLine, String.toList_append, String.toList_append] at hlists
  exact Element.eq_of_compact h h' (String.toList_inj.mp (List.append_cancel_left hlists))

/-- The lines of elements are those that start with their letter, and the line of the
root is the last one. -/
theorem lines_inj {as as' bs bs' : List String} {root root' : String}
    (has : ∀ a ∈ as, a.toList.head? = some 'V') (has' : ∀ a ∈ as', a.toList.head? = some 'V')
    (hbs : ∀ b ∈ bs ++ [root], b.toList.head? ≠ some 'V')
    (hbs' : ∀ b ∈ bs' ++ [root'], b.toList.head? ≠ some 'V')
    (h : as ++ bs ++ [root] = as' ++ bs' ++ [root']) : as = as' ∧ bs = bs' ∧ root = root' := by
  rw [List.append_assoc, List.append_assoc] at h
  have hrest {bs : List String} (hbs : ∀ b ∈ bs, b.toList.head? ≠ some 'V') :
      ∀ b ∈ bs.head?, (b.toList.head? == some 'V') = false := fun b hb =>
    beq_eq_false_iff_ne.mpr (hbs b (List.mem_of_mem_head? hb))
  obtain ⟨hlines, hrest⟩ := append_inj_of_forall h (fun a ha => beq_iff_eq.mpr (has a ha))
    (fun a ha => beq_iff_eq.mpr (has' a ha)) (hrest hbs) (hrest hbs')
  obtain ⟨hlinks, hroot⟩ := List.append_inj' hrest rfl
  exact ⟨hlines, hlinks, (List.cons.inj hroot).1⟩

variable {g g' : RootedGraph}

/-- The canonical form says what the store holds and which element is the root. -/
theorem canonicalForm_eq_iff (h : g.store.Valid) (h' : g'.store.Valid)
    (hnames : ∀ n ∈ g.store.namedLinks, n.source.IsBarFree ∧ n.target.IsBarFree)
    (hnames' : ∀ n ∈ g'.store.namedLinks, n.source.IsBarFree ∧ n.target.IsBarFree)
    (hfinite : ∀ e ∈ g.store.contents, e.HasFiniteOptions)
    (hfinite' : ∀ e ∈ g'.store.contents, e.HasFiniteOptions) :
    g.canonicalForm = g'.canonicalForm ↔ g.keyText g.rootId = g'.keyText g'.rootId ∧
      g.store.contents.Perm g'.store.contents ∧ g.store.namedLinks.Perm g'.store.namedLinks := by
  constructor
  · intro hform
    rw [canonicalForm_eq h, canonicalForm_eq h'] at hform
    have hfirst (g : RootedGraph) : ∀ line ∈ sortLines (g.store.contents.map elementLine),
        line.toList.head? = some 'V' := by
      intro line hline
      obtain ⟨e, -, rfl⟩ := List.mem_map.mp ((sortLines_perm _).mem_iff.mp hline)
      exact head?_elementLine e
    have hlater (g : RootedGraph) : ∀ line ∈
        sortLines (g.store.namedLinks.map PendingLink.line) ++ ["R|" ++ g.keyText g.rootId],
        line.toList.head? ≠ some 'V' := by
      intro line hline
      rcases List.mem_append.mp hline with hline | hline
      · obtain ⟨n, -, rfl⟩ := List.mem_map.mp ((sortLines_perm _).mem_iff.mp hline)
        rw [PendingLink.toList_line]
        simp
      · rw [List.mem_singleton.mp hline, String.toList_append]
        simp
    obtain ⟨helements, hlinks, hroot⟩ :=
      lines_inj (hfirst g) (hfirst g') (hlater g) (hlater g') hform
    have hperm {lines lines' : List String} (heq : sortLines lines = sortLines lines') :
        lines.Perm lines' :=
      (sortLines_perm lines).symm.trans (heq ▸ sortLines_perm lines')
    refine ⟨?_, ?_, ?_⟩
    · have hlists := congrArg String.toList hroot
      rw [String.toList_append, String.toList_append] at hlists
      exact String.toList_inj.mp (List.append_cancel_left hlists)
    · exact perm_of_map_perm (fun e he e' he' => elementLine_inj (hfinite e he) (hfinite' e' he'))
        (hperm helements)
    · exact perm_of_map_perm (fun n hn n' hn' => PendingLink.eq_of_line (hnames n hn).1
        (hnames n hn).2 (hnames' n' hn').1 (hnames' n' hn').2) (hperm hlinks)
  · rintro ⟨hroot, hcontents, hlinks⟩
    exact canonicalForm_eq_of_alike ⟨h, h', hcontents, hlinks⟩ hroot

end RootedGraph

/-! ## Names without bars -/

/-- No package and no declared name contains a bar, as where they are identifiers. -/
def FileSet.BarFree (set : FileSet) : Prop :=
  (∀ file ∈ set.files, '|' ∉ file.package.toList) ∧ ∀ s ∈ set.sites, '|' ∉ s.name.toList

instance (set : FileSet) : Decidable set.BarFree :=
  inferInstanceAs (Decidable ((∀ file ∈ set.files, '|' ∉ file.package.toList) ∧
    ∀ s ∈ set.sites, '|' ∉ s.name.toList))

theorem notMem_qualify {scope name : String} (hscope : '|' ∉ scope.toList)
    (hname : '|' ∉ name.toList) : '|' ∉ (qualify scope name).toList := by
  rw [qualify]
  split
  · exact hname
  · simp [hscope, hname]

theorem notMem_foldl_qualify {outer : List String} {scope : String} (hscope : '|' ∉ scope.toList)
    (houter : ∀ n ∈ outer, '|' ∉ n.toList) : '|' ∉ (outer.foldl qualify scope).toList := by
  induction outer generalizing scope with
  | nil => exact hscope
  | cons n rest ih =>
      exact ih (notMem_qualify hscope (houter n List.mem_cons_self))
        fun n' hn' => houter n' (List.mem_cons_of_mem _ hn')

/-- Then no full name contains a bar. -/
theorem FileSet.BarFree.key {set : FileSet} (h : set.BarFree) {s : Site} (hs : s ∈ set.sites) :
    s.key.IsBarFree := by
  have hname := h.2 s hs
  have hmessage {m : MessageSite} (hm : m ∈ set.messageSites) : '|' ∉ m.fullName.toList := by
    rw [← m.scopeName_inner]
    exact notMem_foldl_qualify (h.1 _ (file_mem_files hm)) (forall_inner h.2 hm)
  rw [ElementKey.IsBarFree, s.key_fullName]
  cases s with
  | message m => exact hmessage (message_mem_sites.mp hs)
  | field f =>
      exact notMem_qualify (hmessage (mem_fieldSites_iff.mp (field_mem_sites.mp hs)).1) hname
  | group g =>
      exact notMem_qualify (hmessage (mem_groupSites_iff.mp (group_mem_sites.mp hs)).1) hname
  | enum e =>
      have he := enum_mem_sites.mp hs
      exact notMem_qualify
        (notMem_foldl_qualify (h.1 _ (file_mem_files_of_enum he)) (forall_outer_enum h.2 he)) hname

/-! ## Finished graphs -/

namespace Store

variable {set : FileSet} {g : Store}

/-- Flattening comes up with no identity. -/
theorem mem_keys_of_flatten (h : g.Valid) {key : ElementKey} (hkey : key ∈ g.flatten.keys) :
    key ∈ g.keys := by
  obtain ⟨id, e, hmem, rfl⟩ := mem_keys_iff.mp hkey
  rcases (h.applied g.planFlattening).elements _ hmem with hkept | hadded
  · exact mem_keys_iff.mpr ⟨id, e, (List.mem_filter.mp hkept).1, rfl⟩
  · obtain ⟨origin, old, p, hreplaces, rfl⟩ := exists_replaces hadded
    exact mem_keys_iff.mpr ⟨origin, old, (hreplaces.exists_link h).1, (old.key_withPrimitive p).symm⟩

end Store

namespace RootedGraph

variable {bs bs' : Wire.Bytes} {set set' : FileSet} {options options' : GraphOptions}
variable {g g' : RootedGraph}

/-- A finished graph has the store that it was finished from, and its root is the vertex
with its number. -/
theorem finish_ok {store : Store} (h : finish set options store = .ok g) :
    g.store = store ∧ g.store.element? g.rootId = some g.root := by
  rw [finish] at h
  split at h
  · cases h
  · split at h
    · cases h
    · next hroot =>
      cases h
      exact ⟨rfl, hroot⟩

/-- The vertices of a finished graph are named as declarations of the set. -/
theorem named_of_ofSet (h : ofSet set options = .ok g) :
    g.store.Valid ∧ ∀ key ∈ g.store.keys, ∃ s ∈ set.sites, s.key = key := by
  have hvalid := (Store.traced_ofSet set).valid
  rw [ofSet, build] at h
  rw [(finish_ok h).1]
  split
  · exact ⟨(hvalid.applied _).valid, fun key hkey =>
      mem_keys_ofSet_iff.mp (Store.mem_keys_of_flatten hvalid hkey)⟩
  · exact ⟨hvalid, fun key hkey => mem_keys_ofSet_iff.mp hkey⟩

/-- So are those of a graph with options, whose root has the identity that is told. -/
theorem named_of_ofBytes (hdecode : FileSet.decode bs = .ok set) (h : ofBytes bs options = .ok g) :
    g.store.Valid ∧ (∀ key ∈ g.store.keys, ∃ s ∈ set.sites, s.key = key) ∧
      g.keyText g.rootId = g.root.key.text := by
  have hbare : ofSet set options = .ok g.withoutOptions := by
    rcases withoutOptions_ofBytes hdecode options with ⟨e, he⟩ | hbare
    · rw [h] at he
      cases he
    · rw [← hbare, h]
      rfl
  -- Options are no part of an identity, so the graph without them has the same names.
  obtain ⟨hvalid, hnamed⟩ := named_of_ofSet hbare
  refine ⟨hvalid.of_withoutOptions,
    fun key hkey => hnamed key (g.store.withoutOptions_keys.symm ▸ hkey), keyText_of_keyOf? ?_⟩
  have hroot : (g.store.element? g.rootId).map Element.withoutOptions =
      some g.root.withoutOptions :=
    (g.store.withoutOptions_element? g.rootId).symm.trans (finish_ok hbare).2
  obtain ⟨e, he, heq⟩ := Option.map_eq_some_iff.mp hroot
  rw [Store.keyOf?, he]
  exact congrArg (fun e => some e.key) heq

/-- The ends of links have no bars in their names. -/
theorem barFree_of_ofBytes (hdecode : FileSet.decode bs = .ok set) (hbars : set.BarFree)
    (h : ofBytes bs options = .ok g) :
    ∀ n ∈ g.store.namedLinks, n.source.IsBarFree ∧ n.target.IsBarFree := by
  obtain ⟨hvalid, hnamed, -⟩ := named_of_ofBytes hdecode h
  have hfree {id : VertexId} {key : ElementKey} (hkey : g.store.keyOf? id = some key) :
      key.IsBarFree := by
    obtain ⟨e, hmem, rfl⟩ := hvalid.keyOf?_eq_some_iff.mp hkey
    obtain ⟨s, hs, hskey⟩ := hnamed e.key (Store.mem_keys_iff.mpr ⟨id, e, hmem, rfl⟩)
    exact hskey ▸ hbars.key hs
  intro n hn
  obtain ⟨l, -, hl⟩ := Store.mem_namedLinks_iff.mp hn
  obtain ⟨hsource, htarget, -⟩ := Store.nameOf?_eq_some_iff.mp hl
  exact ⟨hfree hsource, hfree htarget⟩

/-- Graphs built from bytes are equal if and only if they have the same root, the same
vertices with all that is known of them, and the same edges as often, where no option
is an infinite or NaN double. -/
theorem same_iff (hdecode : FileSet.decode bs = .ok set) (hdecode' : FileSet.decode bs' = .ok set')
    (hbars : set.BarFree) (hbars' : set'.BarFree) (h : ofBytes bs options = .ok g)
    (h' : ofBytes bs' options' = .ok g') (hfinite : ∀ e ∈ g.store.contents, e.HasFiniteOptions)
    (hfinite' : ∀ e ∈ g'.store.contents, e.HasFiniteOptions) :
    g.same g' = true ↔ g.root.key = g'.root.key ∧ g.store.contents.Perm g'.store.contents ∧
      g.store.namedLinks.Perm g'.store.namedLinks := by
  obtain ⟨hvalid, -, hroot⟩ := named_of_ofBytes hdecode h
  obtain ⟨hvalid', -, hroot'⟩ := named_of_ofBytes hdecode' h'
  rw [same, beq_iff_eq, canonicalForm_eq_iff hvalid hvalid' (barFree_of_ofBytes hdecode hbars h)
    (barFree_of_ofBytes hdecode' hbars' h') hfinite hfinite', hroot, hroot',
    ElementKey.text_injective.eq_iff]

/-- A message with a field that sets an option to a number of 32 bits, given by its
bytes. -/
def floatBytes (value : List UInt8) : Wire.Bytes :=
  [10, 73, 10, 1, 109, 18, 1, 109, 34, 22, 10, 1, 65, 18, 17, 10, 1, 120, 24, 1, 32, 1, 40, 9, 66,
    6, 197, 62] ++ value ++
  [58, 41, 10, 1, 104, 18, 29, 46, 103, 111, 111, 103, 108, 101, 46, 112, 114, 111, 116, 111,
    98, 117, 102, 46, 70, 105, 101, 108, 100, 79, 112, 116, 105, 111, 110, 115, 24, 232, 7, 32,
    1, 40, 2]

/-- The graph of it. -/
def floatGraph (value : List UInt8) : Except BuildError RootedGraph :=
  ofBytes (floatBytes value) { messageName := some "m.A" }

/-- The numbers one, one and a half, infinity and its opposite, and the doubles that they
are. -/
def floats : List (List UInt8 × Binary64) :=
  [([0, 0, 128, 63], ⟨0x3FF0000000000000⟩), ([0, 0, 192, 63], ⟨0x3FF8000000000000⟩),
    ([0, 0, 128, 127], ⟨0x7FF0000000000000⟩), ([0, 0, 128, 255], ⟨0xFFF0000000000000⟩)]

section Floats

variable {value : List UInt8} {x : Binary64}

theorem decode_floatBytes (h : (value, x) ∈ floats) :
    ∃ set, FileSet.decode (floatBytes value) = .ok set ∧ set.BarFree := by
  have hdecoded : ∀ entry ∈ floats, (FileSet.decode (floatBytes entry.1)).map
      (fun set => decide set.BarFree) = .ok true := by decide +kernel
  obtain ⟨set, hset, hbars⟩ := exists_of_map_ok (hdecoded (value, x) h)
  exact ⟨set, hset, of_decide_eq_true hbars⟩

theorem build_floatBytes (h : (value, x) ∈ floats) :
    ∃ g, floatGraph value = .ok g ∧
      g.store.contents.map Element.options = [[], [⟨"m.h", 1000, .float x⟩]] := by
  have hbuilt : ∀ entry ∈ floats,
      (floatGraph entry.1).map (fun g => g.store.contents.map Element.options) =
        .ok [[], [⟨"m.h", 1000, .float entry.2⟩]] := by decide +kernel
  exact exists_of_map_ok (hbuilt (value, x) h)

theorem hasFiniteOptions_of_floats (hx : x.isFinite = true)
    (h : g.store.contents.map Element.options = [[], [⟨"m.h", 1000, .float x⟩]]) :
    ∀ e ∈ g.store.contents, e.HasFiniteOptions := by
  intro e he o ho
  have hmem : e.options ∈ g.store.contents.map Element.options := List.mem_map.mpr ⟨e, he, rfl⟩
  rw [h, List.mem_cons, List.mem_singleton] at hmem
  rcases hmem with hnone | hone
  · rw [hnone] at ho
    cases ho
  · rw [hone] at ho
    rw [List.mem_singleton.mp ho]
    exact hx

end Floats

/-- One and one and a half are told apart. -/
theorem same_iff_floatBytes :
    ∃ set set' g g', FileSet.decode (floatBytes [0, 0, 128, 63]) = .ok set ∧
      FileSet.decode (floatBytes [0, 0, 192, 63]) = .ok set' ∧ set.BarFree ∧ set'.BarFree ∧
      floatGraph [0, 0, 128, 63] = .ok g ∧ floatGraph [0, 0, 192, 63] = .ok g' ∧
      (∀ e ∈ g.store.contents, e.HasFiniteOptions) ∧
      (∀ e ∈ g'.store.contents, e.HasFiniteOptions) ∧ g.same g' = false := by
  have hone : ([0, 0, 128, 63], ⟨0x3FF0000000000000⟩) ∈ floats := by decide
  have hhalf : ([0, 0, 192, 63], ⟨0x3FF8000000000000⟩) ∈ floats := by decide
  obtain ⟨set, hdecode, hbars⟩ := decode_floatBytes hone
  obtain ⟨set', hdecode', hbars'⟩ := decode_floatBytes hhalf
  obtain ⟨g, hg, hoptions⟩ := build_floatBytes hone
  obtain ⟨g', hg', hoptions'⟩ := build_floatBytes hhalf
  have hfinite := hasFiniteOptions_of_floats (by decide) hoptions
  have hfinite' := hasFiniteOptions_of_floats (by decide) hoptions'
  refine ⟨set, set', g, g', hdecode, hdecode', hbars, hbars', hg, hg', hfinite, hfinite',
    Bool.eq_false_iff.mpr fun hsame => ?_⟩
  have hperm := ((same_iff hdecode hdecode' hbars hbars' hg hg' hfinite hfinite').mp hsame).2.1
  have hmapped := hperm.map Element.options
  rw [hoptions, hoptions'] at hmapped
  exact absurd hmapped (by decide)

/-- What the lines of the two graphs with infinities are made of. -/
theorem lines_infinities :
    (floatGraph [0, 0, 128, 127]).map (fun g => g.store.contents.map elementLine) =
        (floatGraph [0, 0, 128, 255]).map (fun g => g.store.contents.map elementLine) ∧
      (floatGraph [0, 0, 128, 127]).map (fun g => g.store.namedLinks) =
        (floatGraph [0, 0, 128, 255]).map (fun g => g.store.namedLinks) ∧
      (floatGraph [0, 0, 128, 127]).map (fun g => g.root.key) =
        (floatGraph [0, 0, 128, 255]).map (fun g => g.root.key) :=
  ⟨by decide +kernel, by decide +kernel, by decide +kernel⟩

/-- Infinity and its opposite are not told apart, since neither is written: graphs that
differ in such an option are equal and have the same digest. -/
theorem same_of_infinities :
    ∃ set set' g g', FileSet.decode (floatBytes [0, 0, 128, 127]) = .ok set ∧
      FileSet.decode (floatBytes [0, 0, 128, 255]) = .ok set' ∧ set.BarFree ∧ set'.BarFree ∧
      floatGraph [0, 0, 128, 127] = .ok g ∧ floatGraph [0, 0, 128, 255] = .ok g' ∧
      g.same g' = true ∧ g.identityHash = g'.identityHash ∧
      ¬ g.store.contents.Perm g'.store.contents := by
  have hplus : ([0, 0, 128, 127], ⟨0x7FF0000000000000⟩) ∈ floats := by decide
  have hminus : ([0, 0, 128, 255], ⟨0xFFF0000000000000⟩) ∈ floats := by decide
  obtain ⟨set, hdecode, hbars⟩ := decode_floatBytes hplus
  obtain ⟨set', hdecode', hbars'⟩ := decode_floatBytes hminus
  obtain ⟨g, hg, hoptions⟩ := build_floatBytes hplus
  obtain ⟨g', hg', hoptions'⟩ := build_floatBytes hminus
  obtain ⟨hvalid, -, hroot⟩ := named_of_ofBytes hdecode hg
  obtain ⟨hvalid', -, hroot'⟩ := named_of_ofBytes hdecode' hg'
  have hform : g.canonicalForm = g'.canonicalForm := by
    obtain ⟨helements, hlinks, hkey⟩ := lines_infinities
    rw [hg, hg'] at helements hlinks hkey
    have helements : g.store.contents.map elementLine = g'.store.contents.map elementLine :=
      Except.ok.inj helements
    have hlinks : g.store.namedLinks = g'.store.namedLinks := Except.ok.inj hlinks
    have hkey : g.root.key = g'.root.key := Except.ok.inj hkey
    rw [canonicalForm_eq hvalid, canonicalForm_eq hvalid', hroot, hroot', helements, hlinks, hkey]
  refine ⟨set, set', g, g', hdecode, hdecode', hbars, hbars', hg, hg', beq_iff_eq.mpr hform, ?_,
    fun hperm => ?_⟩
  · rw [identityHash, identityHash, hform]
  · have hmapped := hperm.map Element.options
    rw [hoptions, hoptions'] at hmapped
    exact absurd hmapped (by decide)

end RootedGraph

end SchemaGraph

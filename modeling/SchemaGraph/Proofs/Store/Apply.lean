import SchemaGraph.Graph.Patch
import SchemaGraph.Proofs.Store.Named

/-!
# What a patch does to a store

The four steps of a patch, each as what it does to the elements and links, and
the store that they lead to together (`Valid.apply_holds`): the elements and
links that the patch does not remove, and those it adds.

* Removal by number keeps the rest of the store as it is, numbers included.
* An added element must have an identity that is not taken, and an added link
  must have both ends; a patch that breaks this is not described here.
-/

namespace SchemaGraph

namespace Store

variable {g g' : Store} {es : List Element} {ls : List PendingLink}

/-! ## Removal -/

theorem foldl_removeLink (h : g.Valid) (ids : List EdgeId) :
    (ids.foldl removeLink g).Valid ∧ (ids.foldl removeLink g).elements = g.elements ∧
      (ids.foldl removeLink g).links = g.links.filter fun l => !ids.contains l.id := by
  induction ids generalizing g with
  | nil => exact ⟨h, rfl, by simp⟩
  | cons id rest ih =>
      obtain ⟨hvalid, helements, hlinks⟩ := ih (h.removeLink id)
      refine ⟨hvalid, helements.trans (removeLink_frame g id).1, ?_⟩
      rw [List.foldl_cons, hlinks, links_removeLink, List.filter_filter]
      refine List.filter_congr fun l _ => ?_
      rw [List.contains_cons, Bool.not_or, Bool.and_comm]
      rfl

theorem foldl_removeElement (h : g.Valid) (ids : List VertexId) :
    (ids.foldl removeElement g).Valid ∧
      (ids.foldl removeElement g).elements =
        g.elements.filter (fun entry => !ids.contains entry.1) ∧
      (ids.foldl removeElement g).links =
        g.links.filter fun l => !ids.contains l.source && !ids.contains l.target := by
  induction ids generalizing g with
  | nil => exact ⟨h, by simp, by simp⟩
  | cons id rest ih =>
      obtain ⟨hvalid, helements, hlinks⟩ := ih (h.removeElement id)
      refine ⟨hvalid, ?_, ?_⟩
      · rw [List.foldl_cons, helements, elements_removeElement h, List.filter_filter]
        refine List.filter_congr fun entry _ => ?_
        rw [List.contains_cons, Bool.not_or, Bool.and_comm]
        rfl
      · rw [List.foldl_cons, hlinks, links_removeElement h, List.filter_filter]
        refine List.filter_congr fun l _ => ?_
        rw [List.contains_cons, List.contains_cons, Bool.not_or, Bool.not_or]
        simp only [bne]
        ac_rfl

/-- What is left of a store has the names that it had. -/
theorem Valid.namedLinks_of_subset (h : g.Valid) (h' : g'.Valid)
    (helements : g'.elements ⊆ g.elements) :
    g'.namedLinks = g'.links.filterMap g.nameOf? := by
  refine List.filterMap_congr fun l hl => ?_
  obtain ⟨n, hn⟩ := h'.exists_nameOf? hl
  obtain ⟨hsource, htarget, hedge⟩ := nameOf?_eq_some_iff.mp hn
  have hkeeps {id : VertexId} {key : ElementKey} (hkey : g'.keyOf? id = some key) :
      g.keyOf? id = some key := by
    obtain ⟨e, hmem, hsame⟩ := h'.keyOf?_eq_some_iff.mp hkey
    exact h.keyOf?_eq_some_iff.mpr ⟨e, helements hmem, hsame⟩
  rw [hn]
  exact (nameOf?_eq_some_iff.mpr ⟨hkeeps hsource, hkeeps htarget, hedge⟩).symm

/-! ## Addition -/

theorem mem_elements_addElement {e : Element} {entry : VertexId × Element}
    (hmem : entry ∈ g.elements) : entry ∈ (g.addElement e).2.elements := by
  cases hfind : g.find? e.key with
  | some id =>
      rw [addElement_of_find? hfind]
      exact hmem
  | none => exact (elements_addElement_perm hfind).mem_iff.mpr (List.mem_cons_of_mem _ hmem)

theorem Holds.foldl_addElement (h : g.Holds es ls) {added : List Element}
    (hkeys : ((added ++ es).map Element.key).Nodup) :
    (added.foldl (fun g e => (g.addElement e).2) g).Holds (added ++ es) ls ∧
      g.elements ⊆ (added.foldl (fun g e => (g.addElement e).2) g).elements := by
  induction added generalizing g es with
  | nil => exact ⟨h, List.Subset.refl _⟩
  | cons e rest ih =>
      rw [List.cons_append, List.map_cons, List.nodup_cons] at hkeys
      have hnew : e.key ∉ es.map Element.key := fun hmem =>
        hkeys.1 (((List.sublist_append_right _ _).map _).subset hmem)
      have hperm : (rest ++ e :: es).Perm (e :: (rest ++ es)) := List.perm_middle
      obtain ⟨hholds, hsub⟩ := ih (h.addElement hnew)
        ((hperm.map Element.key).nodup_iff.mpr (List.nodup_cons.mpr hkeys))
      exact ⟨hholds.perm hperm (List.Perm.refl _), fun entry hmem =>
        hsub (mem_elements_addElement hmem)⟩

/-- Links between elements that are there. -/
theorem Holds.foldl_connect (h : g.Holds es ls) {added : List PendingLink}
    (hends : ∀ n ∈ added, n.source ∈ es.map Element.key ∧ n.target ∈ es.map Element.key) :
    (added.foldl connect g).Holds es (added ++ ls) ∧
      (added.foldl connect g).elements = g.elements := by
  -- Links change no identity, so the ends of the later ones stay where they are.
  induction added generalizing g ls with
  | nil => exact ⟨h, rfl⟩
  | cons n rest ih =>
      obtain ⟨hsource, htarget⟩ := hends n List.mem_cons_self
      obtain ⟨source, hs⟩ := h.exists_keyOf? hsource
      obtain ⟨target, ht⟩ := h.exists_keyOf? htarget
      have hconnect : g.connect n = (g.addLink source target n.edge).2 := by
        rw [connect, h.valid.keyOf?_eq_some_iff_find?.mp hs, h.valid.keyOf?_eq_some_iff_find?.mp ht]
      have hadded := h.addLink n.edge hs ht
      rw [← hconnect] at hadded
      obtain ⟨hholds, helements⟩ := ih hadded fun n hn => hends n (List.mem_cons_of_mem _ hn)
      refine ⟨hholds.perm (List.Perm.refl _) List.perm_middle, helements.trans ?_⟩
      rw [hconnect]
      rfl

/-! ## A whole patch -/

/-- The elements that a patch does not remove. -/
def keptEntries (g : Store) (p : Patch) : List (VertexId × Element) :=
  g.elements.filter fun entry => !p.removedElements.contains entry.1

/-- The links that a patch does not remove, neither by themselves nor with one of
their ends. -/
def keptLinks (g : Store) (p : Patch) : List Link :=
  g.links.filter fun l => !p.removedLinks.contains l.id &&
    (!p.removedElements.contains l.source && !p.removedElements.contains l.target)

/-- What is left of a store when a patch has removed what it removes. -/
theorem Valid.removals (h : g.Valid) (p : Patch) :
    (p.removedElements.foldl Store.removeElement (p.removedLinks.foldl Store.removeLink g)).Valid ∧
      (p.removedElements.foldl Store.removeElement
        (p.removedLinks.foldl Store.removeLink g)).elements = g.keptEntries p ∧
      (p.removedElements.foldl Store.removeElement
        (p.removedLinks.foldl Store.removeLink g)).links = g.keptLinks p := by
  obtain ⟨hvalid, helements, hlinks⟩ := foldl_removeLink h p.removedLinks
  obtain ⟨hvalid', helements', hlinks'⟩ := foldl_removeElement hvalid p.removedElements
  refine ⟨hvalid', by rw [helements', helements]; rfl, ?_⟩
  rw [hlinks', hlinks, List.filter_filter]
  exact List.filter_congr fun l _ => Bool.and_comm _ _

/-- What is left keeps its names, as it is under its old numbers. -/
theorem Valid.removals_holds (h : g.Valid) (p : Patch) :
    (p.removedElements.foldl Store.removeElement (p.removedLinks.foldl Store.removeLink g)).Holds
      ((g.keptEntries p).map Prod.snd) ((g.keptLinks p).filterMap g.nameOf?) := by
  obtain ⟨hvalid, helements, hlinks⟩ := h.removals p
  refine ⟨hvalid, ?_, ?_⟩
  · rw [helements]
  · rw [h.namedLinks_of_subset hvalid, hlinks]
    rw [helements]
    exact List.filter_subset_self _

/-- After a patch a store holds what the patch keeps and what it adds. -/
theorem Valid.apply_holds (h : g.Valid) {p : Patch}
    (hkeys : ((p.addedElements ++ (g.keptEntries p).map Prod.snd).map Element.key).Nodup)
    (hends : ∀ n ∈ p.addedLinks,
      n.source ∈ (p.addedElements ++ (g.keptEntries p).map Prod.snd).map Element.key ∧
      n.target ∈ (p.addedElements ++ (g.keptEntries p).map Prod.snd).map Element.key) :
    (g.apply p).Holds (p.addedElements ++ (g.keptEntries p).map Prod.snd)
        (p.addedLinks ++ (g.keptLinks p).filterMap g.nameOf?) ∧
      g.keptEntries p ⊆ (g.apply p).elements := by
  obtain ⟨hadded, hsub⟩ := (h.removals_holds p).foldl_addElement hkeys
  obtain ⟨hconnected, hsame⟩ := hadded.foldl_connect hends
  rw [← hsame, (h.removals p).2.1] at hsub
  exact ⟨hconnected, hsub⟩

end Store

end SchemaGraph

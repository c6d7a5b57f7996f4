import Mathlib.Data.List.Perm.Basic
import Mathlib.Data.List.Nodup
import Mathlib.Data.List.Sort
import SchemaGraph.Graph.Patch

/-!
# Valid stores

The invariant that every operation of a store keeps, and what the look-ups mean
under it:

* `IdPool.Accounts`: the live numbers and those given back are together exactly
  the numbers below the least one never used, each once;
* `Store.Valid`: both pools account for the live vertices and links, the index
  lists exactly the elements, no two elements share an identity, and every link
  has two live ends.

The order in which vertices and links are listed is left open here.
-/

namespace SchemaGraph

namespace Ordered

variable {α : Type}

theorem insert_eq_orderedInsert (le : α → α → Bool) (a : α) (as : List α) :
    insert le a as = as.orderedInsert (fun a b => le a b = true) a := by
  induction as with
  | nil => rfl
  | cons b rest ih =>
      rw [insert, ih]
      rfl

theorem sort_eq_insertionSort (le : α → α → Bool) (as : List α) :
    sort le as = as.insertionSort fun a b => le a b = true := by
  induction as with
  | nil => rfl
  | cons a rest ih => rw [sort, ih, insert_eq_orderedInsert, List.insertionSort_cons]

theorem mem_foldl_insertNat {ns set : List Nat} {m : Nat} :
    m ∈ ns.foldl (fun set n => insertNat n set) set ↔ m ∈ set ∨ m ∈ ns := by
  induction ns generalizing set with
  | nil => simp
  | cons n rest ih =>
      rw [List.foldl_cons, ih, mem_insertNat, List.mem_cons, or_comm (a := m = n), or_assoc]

theorem mem_natSet {ns : List Nat} {m : Nat} : m ∈ natSet ns ↔ m ∈ ns := by
  rw [natSet, mem_foldl_insertNat]
  simp

end Ordered

/-- In a list without repeated keys a look-up finds exactly the entries. -/
theorem lookup_eq_some_iff_mem {α β : Type} [BEq α] [LawfulBEq α] {entries : List (α × β)}
    (hkeys : (entries.map Prod.fst).Nodup) {a : α} {b : β} :
    entries.lookup a = some b ↔ (a, b) ∈ entries := by
  induction entries with
  | nil => simp
  | cons entry rest ih =>
      obtain ⟨a', b'⟩ := entry
      rw [List.map_cons, List.nodup_cons] at hkeys
      by_cases ha : a = a'
      · subst ha
        have hnot : (a, b) ∉ rest := fun hmem =>
          hkeys.1 (List.mem_map.mpr ⟨(a, b), hmem, rfl⟩)
        simp [hnot, eq_comm]
      · rw [List.lookup_cons, beq_false_of_ne ha, ih hkeys.2]
        simp [ha]

/-- Values that are changed alike are found changed. -/
theorem lookup_map_snd {α β : Type} [BEq α] (f : β → β) (entries : List (α × β)) (a : α) :
    (entries.map fun entry => (entry.1, f entry.2)).lookup a = (entries.lookup a).map f := by
  induction entries with
  | nil => rfl
  | cons entry rest ih =>
      rw [List.map_cons, List.lookup_cons, List.lookup_cons, ih]
      cases a == entry.1 <;> rfl

namespace IdPool

/-- The live numbers and those given back are the numbers below the least one
never used, each once. -/
def Accounts (p : IdPool) (live : List Nat) : Prop :=
  (live ++ p.freed).Perm (List.range p.fresh)

variable {p : IdPool} {live live' : List Nat} {id : Nat}

theorem accounts_empty : ({} : IdPool).Accounts [] := List.Perm.refl _

theorem Accounts.perm (h : p.Accounts live) (hperm : live'.Perm live) : p.Accounts live' :=
  (hperm.append_right _).trans h

theorem Accounts.nodup (h : p.Accounts live) : live.Nodup :=
  (List.nodup_append.mp (h.nodup_iff.mpr List.nodup_range)).1

/-- Taking the next number makes it live. -/
theorem Accounts.take (h : p.Accounts live) : p.take.Accounts (p.next :: live) := by
  cases hfreed : p.freed with
  | nil =>
      -- Nothing was given back, so the number is one that was never used.
      have htake : p.take = { p with fresh := p.fresh + 1 } := by simp [IdPool.take, hfreed]
      have hlive : live.Perm (List.range p.fresh) := by simpa [Accounts, hfreed] using h
      simp only [Accounts, htake, next, hfreed, List.headD_nil, List.append_nil, List.range_succ]
      exact (hlive.cons _).trans (List.perm_append_singleton _ _).symm
  | cons top rest =>
      have htake : p.take = { p with freed := rest } := by simp [IdPool.take, hfreed]
      simp only [Accounts, htake, next, hfreed, List.headD_cons]
      refine List.Perm.trans ?_ h
      rw [hfreed]
      exact List.perm_middle.symm

/-- Giving a live number back. -/
theorem Accounts.release (h : p.Accounts (id :: live)) : (p.release id).Accounts live :=
  List.perm_middle.trans h

theorem Accounts.releaseAll {ids : List Nat} (h : p.Accounts (ids ++ live)) :
    (p.releaseAll ids).Accounts live := by
  induction ids generalizing p with
  | nil => exact h
  | cons id rest ih => exact ih (Accounts.release h)

end IdPool

namespace Store

/-- The numbers of the elements. -/
def ids (g : Store) : List VertexId := g.elements.map Prod.fst

/-- The identities of the elements, in the same order. -/
def keys (g : Store) : List ElementKey := g.elements.map fun entry => entry.2.key

/-- The invariant of a store. -/
structure Valid (g : Store) : Prop where
  vertexIds : g.vertexIds.Accounts g.ids
  edgeIds : g.edgeIds.Accounts (g.links.map Link.id)
  index : g.index.Perm (g.elements.map fun entry => (entry.2.key, entry.1))
  keys : g.keys.Nodup
  ends : ∀ l ∈ g.links, l.source ∈ g.ids ∧ l.target ∈ g.ids

variable {g : Store} {id : VertexId} {e : Element} {key : ElementKey}

theorem valid_empty : ({} : Store).Valid where
  vertexIds := IdPool.accounts_empty
  edgeIds := IdPool.accounts_empty
  index := List.Perm.refl _
  keys := List.nodup_nil
  ends := by simp

/-! ## Look-ups -/

theorem mem_ids_iff : id ∈ g.ids ↔ ∃ e, (id, e) ∈ g.elements := by
  simp [ids]

theorem mem_keys_iff : key ∈ g.keys ↔ ∃ id e, (id, e) ∈ g.elements ∧ e.key = key := by
  simp [keys]

theorem Valid.element?_eq_some_iff (h : g.Valid) :
    g.element? id = some e ↔ (id, e) ∈ g.elements :=
  lookup_eq_some_iff_mem h.vertexIds.nodup

theorem Valid.element?_eq_none_iff (h : g.Valid) : g.element? id = none ↔ id ∉ g.ids := by
  rw [Option.eq_none_iff_forall_ne_some, mem_ids_iff, not_exists]
  exact forall_congr' fun e => not_congr h.element?_eq_some_iff

theorem Valid.nodup_index (h : g.Valid) : (g.index.map Prod.fst).Nodup := by
  rw [(h.index.map Prod.fst).nodup_iff, List.map_map]
  exact h.keys

theorem Valid.find?_eq_some_iff (h : g.Valid) :
    g.find? key = some id ↔ ∃ e, (id, e) ∈ g.elements ∧ e.key = key := by
  rw [find?, lookup_eq_some_iff_mem h.nodup_index, h.index.mem_iff, List.mem_map]
  constructor
  · rintro ⟨⟨i, e⟩, hmem, heq⟩
    obtain ⟨hkey, hid⟩ := Prod.mk.inj heq
    exact ⟨e, hid ▸ hmem, hkey⟩
  · rintro ⟨e, hmem, rfl⟩
    exact ⟨(id, e), hmem, rfl⟩

theorem Valid.find?_eq_none_iff (h : g.Valid) : g.find? key = none ↔ key ∉ g.keys := by
  rw [Option.eq_none_iff_forall_ne_some, mem_keys_iff, not_exists]
  exact forall_congr' fun id => not_congr h.find?_eq_some_iff

/-- A number names one element. -/
theorem Valid.eq_of_id (h : g.Valid) {e' : Element} (hmem : (id, e) ∈ g.elements)
    (hmem' : (id, e') ∈ g.elements) : e = e' :=
  Option.some.inj ((h.element?_eq_some_iff.mpr hmem).symm.trans (h.element?_eq_some_iff.mpr hmem'))

/-- An identity names one element. -/
theorem Valid.eq_of_key (h : g.Valid) {id' : VertexId} {e' : Element}
    (hmem : (id, e) ∈ g.elements) (hmem' : (id', e') ∈ g.elements) (hkey : e.key = e'.key) :
    id = id' ∧ e = e' := by
  have hid : id = id' := Option.some.inj
    ((h.find?_eq_some_iff.mpr ⟨e, hmem, hkey⟩).symm.trans
      (h.find?_eq_some_iff.mpr ⟨e', hmem', rfl⟩))
  subst hid
  exact ⟨rfl, h.eq_of_id hmem hmem'⟩

/-! ## Operations -/

theorem addElement_of_find? (hfind : g.find? e.key = some id) : g.addElement e = (id, g) := by
  simp [addElement, hfind]

theorem addElement_of_find?_none (hfind : g.find? e.key = none) :
    g.addElement e = (g.vertexIds.next, { g with
      elements := place g.vertexIds.next e g.elements
      index := (e.key, g.vertexIds.next) :: g.index
      vertexIds := g.vertexIds.take }) := by
  simp [addElement, hfind]

theorem elements_addElement_perm (hfind : g.find? e.key = none) :
    (g.addElement e).2.elements.Perm ((g.vertexIds.next, e) :: g.elements) := by
  rw [addElement_of_find?_none hfind]
  rw [place, Ordered.insert_eq_orderedInsert]
  exact List.perm_orderedInsert _ _ _

theorem Valid.addElement (h : g.Valid) : (g.addElement e).2.Valid := by
  cases hfind : g.find? e.key with
  | some id =>
      rw [addElement_of_find? hfind]
      exact h
  | none =>
      have hperm := elements_addElement_perm hfind
      have hkey : e.key ∉ g.keys := h.find?_eq_none_iff.mp hfind
      have hindex : (g.addElement e).2.index = (e.key, g.vertexIds.next) :: g.index := by
        rw [addElement_of_find?_none hfind]
      have hvertex : (g.addElement e).2.vertexIds = g.vertexIds.take := by
        rw [addElement_of_find?_none hfind]
      have hedge : (g.addElement e).2.edgeIds = g.edgeIds := by
        rw [addElement_of_find?_none hfind]
      have hlinks : (g.addElement e).2.links = g.links := by
        rw [addElement_of_find?_none hfind]
      have hids : (g.addElement e).2.ids.Perm (g.vertexIds.next :: g.ids) := hperm.map Prod.fst
      constructor
      · rw [hvertex]
        exact h.vertexIds.take.perm hids
      · rw [hedge, hlinks]
        exact h.edgeIds
      · rw [hindex]
        have hentries := hperm.map fun entry : VertexId × Element => (entry.2.key, entry.1)
        exact (h.index.cons _).trans hentries.symm
      · refine (hperm.map _).nodup_iff.mpr ?_
        exact List.nodup_cons.mpr ⟨hkey, h.keys⟩
      · rw [hlinks]
        intro l hl
        have hends := h.ends l hl
        exact ⟨hids.mem_iff.mpr (List.mem_cons_of_mem _ hends.1),
          hids.mem_iff.mpr (List.mem_cons_of_mem _ hends.2)⟩

theorem Valid.addLink (h : g.Valid) {source target : VertexId} (edge : Edge)
    (hsource : source ∈ g.ids) (htarget : target ∈ g.ids) :
    (g.addLink source target edge).2.Valid where
  vertexIds := h.vertexIds
  edgeIds := h.edgeIds.take
  index := h.index
  keys := h.keys
  ends := by
    intro l hl
    rcases List.mem_cons.mp hl with rfl | hl
    · exact ⟨hsource, htarget⟩
    · exact h.ends l hl

/-- What `update` does to one entry. -/
theorem elements_update (g : Store) (id : VertexId) (change : Element → Element) :
    (g.update id change).elements =
      g.elements.map fun entry => (entry.1, if entry.1 = id then change entry.2 else entry.2) := by
  refine List.map_congr_left fun entry _ => ?_
  show (if entry.1 = id then (entry.1, change entry.2) else entry) = _
  split
  · rfl
  · rfl

theorem ids_update (g : Store) (id : VertexId) (change : Element → Element) :
    (g.update id change).ids = g.ids := by
  simp [ids, elements_update, Function.comp_def]

theorem keys_update (g : Store) (id : VertexId) {change : Element → Element}
    (hchange : ∀ e, (change e).key = e.key) : (g.update id change).keys = g.keys := by
  rw [keys, elements_update, List.map_map]
  refine List.map_congr_left fun entry _ => ?_
  rw [Function.comp_apply]
  dsimp only
  split
  · exact hchange _
  · rfl

theorem Valid.update (h : g.Valid) {change : Element → Element}
    (hchange : ∀ e, (change e).key = e.key) : (g.update id change).Valid := by
  have hkey (entry : VertexId × Element) :
      (if entry.1 = id then change entry.2 else entry.2).key = entry.2.key := by
    split
    · exact hchange _
    · rfl
  constructor
  · rw [ids_update]
    exact h.vertexIds
  · exact h.edgeIds
  · rw [elements_update, List.map_map]
    simp only [Function.comp_def, hkey]
    exact h.index
  · simpa only [Store.keys, elements_update, List.map_map, Function.comp_def, hkey] using h.keys
  · rw [ids_update]
    exact h.ends

/-- An unknown number is passed over by the filter as well. -/
theorem links_removeLink (g : Store) (id : EdgeId) :
    (g.removeLink id).links = g.links.filter fun l => l.id != id := by
  unfold removeLink
  split
  · next hlink =>
    refine (List.filter_eq_self.mpr fun l hl => ?_).symm
    simpa using List.find?_eq_none.mp hlink l hl
  · rfl

theorem removeLink_frame (g : Store) (id : EdgeId) :
    (g.removeLink id).elements = g.elements ∧ (g.removeLink id).index = g.index ∧
      (g.removeLink id).vertexIds = g.vertexIds := by
  unfold removeLink
  split <;> exact ⟨rfl, rfl, rfl⟩

theorem Valid.removeLink (h : g.Valid) (id : EdgeId) : (g.removeLink id).Valid := by
  obtain ⟨helements, hindex, hvertex⟩ := removeLink_frame g id
  constructor
  · rw [ids, helements, hvertex]
    exact h.vertexIds
  · unfold Store.removeLink
    split
    · exact h.edgeIds
    · next l hlink =>
      have hmem : l ∈ g.links := List.mem_of_find?_eq_some hlink
      have hid : l.id = id := by simpa using List.find?_some hlink
      -- The number names no other link, so the filter removes just this one.
      refine IdPool.Accounts.release (h.edgeIds.perm ?_)
      have hids : (g.links.filter fun l => l.id != id).map Link.id =
          (g.links.map Link.id).erase id := by
        rw [h.edgeIds.nodup.erase_eq_filter, List.filter_map]
        rfl
      rw [hids]
      exact (List.perm_cons_erase (hid ▸ List.mem_map_of_mem hmem)).symm
  · rw [helements, hindex]
    exact h.index
  · rw [Store.keys, helements]
    exact h.keys
  · intro l hl
    rw [ids, helements]
    rw [links_removeLink] at hl
    exact h.ends l (List.mem_of_mem_filter hl)

theorem elements_removeElement (h : g.Valid) (id : VertexId) :
    (g.removeElement id).elements = g.elements.filter fun entry => entry.1 != id := by
  unfold removeElement
  split
  · next hnone =>
    refine (List.filter_eq_self.mpr fun entry hentry => ?_).symm
    have hid : id ∉ g.ids := h.element?_eq_none_iff.mp hnone
    have hne : entry.1 ≠ id := fun heq => hid (heq ▸ List.mem_map_of_mem hentry)
    simpa using hne
  · rfl

theorem links_removeElement (h : g.Valid) (id : VertexId) :
    (g.removeElement id).links = g.links.filter fun l => l.source != id && l.target != id := by
  unfold removeElement
  split
  · next hnone =>
    refine (List.filter_eq_self.mpr fun l hl => ?_).symm
    have hid : id ∉ g.ids := h.element?_eq_none_iff.mp hnone
    obtain ⟨hsource, htarget⟩ := h.ends l hl
    have hs : l.source ≠ id := fun heq => hid (heq ▸ hsource)
    have ht : l.target ≠ id := fun heq => hid (heq ▸ htarget)
    simp [hs, ht]
  · rfl

/-- The links at a vertex and those elsewhere are all links. -/
theorem links_perm_around (g : Store) (id : VertexId) :
    ((g.outgoing id ++ (g.incoming id).filter fun l => l.source != id) ++
      g.links.filter fun l => l.source != id && l.target != id).Perm g.links := by
  have hentering : ((g.incoming id).filter fun l => l.source != id) =
      (g.links.filter fun l => l.source != id).filter fun l => l.target == id := by
    simp [incoming, List.filter_filter, Bool.and_comm]
  have helsewhere : (g.links.filter fun l => l.source != id && l.target != id) =
      (g.links.filter fun l => l.source != id).filter fun l => !(l.target == id) := by
    rw [List.filter_filter]
    exact List.filter_congr fun l _ => by rw [Bool.and_comm]; rfl
  rw [hentering, helsewhere, List.append_assoc]
  exact (List.Perm.append_left _ (List.filter_append_perm _ _)).trans
    (List.filter_append_perm (fun l : Link => l.source == id) g.links)

theorem Valid.removeElement (h : g.Valid) (id : VertexId) : (g.removeElement id).Valid := by
  cases hfind : g.element? id with
  | none =>
      have hsame : g.removeElement id = g := by simp [Store.removeElement, hfind]
      rw [hsame]
      exact h
  | some e =>
      have hmem := h.element?_eq_some_iff.mp hfind
      have hids : (g.removeElement id).ids = g.ids.filter fun i => i != id := by
        rw [ids, elements_removeElement h, ids, List.filter_map]
        rfl
      -- Only the removed element has its number, and only it has its identity.
      have hfilter : g.elements.filter (fun entry => entry.2.key != e.key) =
          g.elements.filter fun entry => entry.1 != id := by
        refine List.filter_congr fun entry hentry => ?_
        rw [Bool.eq_iff_iff, bne_iff_ne, bne_iff_ne, not_iff_not]
        constructor
        · exact fun hkey => (h.eq_of_key hentry hmem hkey).1
        · exact fun hid => congrArg Element.key (h.eq_of_id (hid ▸ hentry) hmem)
      constructor
      · have hpool : (g.removeElement id).vertexIds = g.vertexIds.release id := by
          simp [Store.removeElement, hfind]
        rw [hpool, hids]
        refine IdPool.Accounts.release (h.vertexIds.perm ?_)
        rw [← h.vertexIds.nodup.erase_eq_filter]
        exact (List.perm_cons_erase (mem_ids_iff.mpr ⟨e, hmem⟩)).symm
      · have hpool : (g.removeElement id).edgeIds = g.edgeIds.releaseAll
            ((g.outgoing id ++ (g.incoming id).filter fun l => l.source != id).map Link.id) := by
          simp [Store.removeElement, hfind]
        rw [hpool, links_removeElement h]
        -- A link from the vertex to itself is given back once, as an outgoing one.
        refine IdPool.Accounts.releaseAll (h.edgeIds.perm ?_)
        rw [← List.map_append]
        exact (links_perm_around g id).map _
      · have hindex : (g.removeElement id).index =
            g.index.filter fun entry => entry.1 != e.key := by
          simp [Store.removeElement, hfind]
        rw [hindex, elements_removeElement h, ← hfilter]
        refine (h.index.filter _).trans ?_
        rw [List.filter_map]
        exact List.Perm.refl _
      · rw [Store.keys, elements_removeElement h]
        exact h.keys.sublist (List.filter_sublist.map _)
      · intro l hl
        rw [links_removeElement h, List.mem_filter] at hl
        obtain ⟨hl, hne⟩ := hl
        rw [Bool.and_eq_true, bne_iff_ne, bne_iff_ne] at hne
        rw [hids, List.mem_filter, List.mem_filter, bne_iff_ne, bne_iff_ne]
        exact ⟨⟨(h.ends l hl).1, hne.1⟩, ⟨(h.ends l hl).2, hne.2⟩⟩

end Store

end SchemaGraph

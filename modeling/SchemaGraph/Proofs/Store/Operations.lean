import Mathlib.Data.Set.Card
import SchemaGraph.Proofs.Store.Apply

/-!
# Stores in operation

Everything that is done to a store, as one type of operations, and what holds of
a store whatever was done to it.

* `Store.Reachable` says that a store comes from the empty one by operations each
  of which is allowed where it is performed;
* an allowed operation keeps a store valid (`Operation.valid_perform`), so every
  reachable store is valid (`Reachable.valid`);
* `Store.Consistent` is what validity means for the look-ups, the lists of edges
  and the counts; `Store.HandsOutFresh` and `Operation.KeepsRest` say what an
  addition may take and what an operation leaves alone.

The main result is `reachable_consistent`.  An operation on a number that names
nothing is allowed and does nothing; only an added edge must have both ends.
-/

namespace SchemaGraph

/-- One operation on a store. -/
inductive Operation where
  | addElement (e : Element)
  | addLink (source target : VertexId) (edge : Edge)
  | removeLink (id : EdgeId)
  | removeElement (id : VertexId)
  | apply (p : Patch)
  | setOptions (id : VertexId) (options : List CustomOption)
  | addMember (id : VertexId) (member : String)

namespace IdPool

/-- The next number is not a live one. -/
theorem Accounts.next_notMem {p : IdPool} {live : List Nat} (h : p.Accounts live) :
    p.next ∉ live :=
  (List.nodup_cons.mp h.take.nodup).1

end IdPool

namespace Operation

/-- The store after an operation. -/
def perform (g : Store) : Operation → Store
  | .addElement e => (g.addElement e).2
  | .addLink source target edge => (g.addLink source target edge).2
  | .removeLink id => g.removeLink id
  | .removeElement id => g.removeElement id
  | .apply p => g.apply p
  | .setOptions id options => g.update id fun e => e.withOptions options
  | .addMember id member => g.update id (Element.addMember member)

/-- An edge is added between vertices that are there. -/
def IsAllowed (g : Store) : Operation → Prop
  | .addLink source target _ => (g.element? source).isSome ∧ (g.element? target).isSome
  | _ => True

/-- The vertices that an operation removes. -/
def RemovesElement (id : VertexId) : Operation → Prop
  | .removeElement i => i = id
  | .apply p => id ∈ p.removedElements
  | _ => False

/-- The vertices that an operation changes in place. -/
def Changes (id : VertexId) : Operation → Prop
  | .setOptions i _ => i = id
  | .addMember i _ => i = id
  | _ => False

/-- The edges that an operation removes, alone or with one of their ends. -/
def RemovesLink (l : Link) : Operation → Prop
  | .removeLink i => i = l.id
  | .removeElement i => i = l.source ∨ i = l.target
  | .apply p =>
    l.id ∈ p.removedLinks ∨ l.source ∈ p.removedElements ∨ l.target ∈ p.removedElements
  | _ => False

/-- What an operation neither removes nor changes is as it was, under its old
number. -/
structure KeepsRest (g : Store) (op : Operation) : Prop where
  elements : ∀ id e, g.element? id = some e → ¬ op.RemovesElement id → ¬ op.Changes id →
    (op.perform g).element? id = some e
  links : ∀ id l, g.link? id = some l → ¬ op.RemovesLink l → (op.perform g).link? id = some l

end Operation

namespace Store

/-- A store that operations lead to. -/
inductive Reachable : Store → Prop where
  | empty : Reachable {}
  | step {g : Store} (op : Operation) (h : g.Reachable) (hallowed : op.IsAllowed g) :
      (op.perform g).Reachable

/-- The look-ups, the lists of edges and the counts of a store agree. -/
structure Consistent (g : Store) : Prop where
  /-- The index leads to the vertex with an identity, and to no other. -/
  find : ∀ key id, g.find? key = some id ↔ ∃ e, g.element? id = some e ∧ e.key = key
  /-- No two vertices share an identity. -/
  keys : ∀ id e id' e', g.element? id = some e → g.element? id' = some e' → e.key = e'.key →
    id = id'
  /-- Both ends of an edge are there. -/
  ends : ∀ id l, g.link? id = some l →
    (g.element? l.source).isSome ∧ (g.element? l.target).isSome
  /-- The edges from a vertex are those with it as their source, each once. -/
  outgoing : ∀ v l, l ∈ g.outgoing v ↔ g.link? l.id = some l ∧ l.source = v
  outgoingIds : ∀ v, ((g.outgoing v).map Link.id).Nodup
  /-- The edges to a vertex are those with it as their target, each once. -/
  incoming : ∀ v l, l ∈ g.incoming v ↔ g.link? l.id = some l ∧ l.target = v
  incomingIds : ∀ v, ((g.incoming v).map Link.id).Nodup
  elementCount : g.elementCount = Set.ncard {id | (g.element? id).isSome}
  linkCount : g.linkCount = Set.ncard {id | (g.link? id).isSome}

/-- An addition takes a number that names nothing, and then it names what was
added.  An element with a known identity is not added. -/
structure HandsOutFresh (g : Store) : Prop where
  known : ∀ e id, g.find? e.key = some id → g.addElement e = (id, g)
  element : ∀ e, g.find? e.key = none →
    g.element? (g.addElement e).1 = none ∧ (g.addElement e).2.element? (g.addElement e).1 = some e
  link : ∀ source target edge, g.link? (g.addLink source target edge).1 = none ∧
    (g.addLink source target edge).2.link? (g.addLink source target edge).1 =
      some ⟨(g.addLink source target edge).1, source, target, edge⟩

variable {g : Store} {id : VertexId} {e : Element} {l : Link}

/-! ## Look-ups of a valid store -/

theorem Valid.isSome_element?_iff (h : g.Valid) : (g.element? id).isSome ↔ id ∈ g.ids := by
  rw [Option.isSome_iff_exists, mem_ids_iff]
  exact exists_congr fun e => h.element?_eq_some_iff

theorem Valid.link?_eq_some_iff (h : g.Valid) {id : EdgeId} :
    g.link? id = some l ↔ l ∈ g.links ∧ l.id = id := by
  constructor
  · exact fun hfound => ⟨List.mem_of_find?_eq_some hfound, by simpa using List.find?_some hfound⟩
  · rintro ⟨hl, rfl⟩
    cases hfound : g.link? l.id with
    | none =>
        have hnot : l.id ≠ l.id := by simpa using List.find?_eq_none.mp hfound l hl
        exact absurd rfl hnot
    | some l' =>
        have hid : l'.id = l.id := by simpa using List.find?_some hfound
        rw [List.inj_on_of_nodup_map h.edgeIds.nodup (List.mem_of_find?_eq_some hfound) hl hid]

theorem Valid.isSome_link?_iff (h : g.Valid) {id : EdgeId} :
    (g.link? id).isSome ↔ id ∈ g.links.map Link.id := by
  rw [Option.isSome_iff_exists, List.mem_map]
  exact exists_congr fun l => h.link?_eq_some_iff

/-- The numbers in a list without repetition are as many as the list is long. -/
theorem length_eq_ncard {ids : List Nat} {p : Nat → Prop} (hids : ids.Nodup)
    (hmem : ∀ id, p id ↔ id ∈ ids) : ids.length = Set.ncard {id | p id} := by
  have hset : {id | p id} = (ids.toFinset : Set Nat) := by
    ext id
    simp [hmem]
  rw [hset, Set.ncard_coe_finset, List.toFinset_card_of_nodup hids]

/-- A valid store is consistent. -/
theorem Valid.consistent (h : g.Valid) : g.Consistent where
  find key id := by
    rw [h.find?_eq_some_iff]
    exact exists_congr fun e => and_congr_left fun _ => h.element?_eq_some_iff.symm
  keys id e id' e' hid hid' hkey :=
    (h.eq_of_key (h.element?_eq_some_iff.mp hid) (h.element?_eq_some_iff.mp hid') hkey).1
  ends id l hl := by
    rw [h.isSome_element?_iff, h.isSome_element?_iff]
    exact h.ends l (h.link?_eq_some_iff.mp hl).1
  outgoing v l := by
    rw [outgoing, List.mem_filter, beq_iff_eq, h.link?_eq_some_iff, and_iff_left rfl]
  outgoingIds v := h.edgeIds.nodup.sublist (List.filter_sublist.map _)
  incoming v l := by
    rw [incoming, List.mem_filter, beq_iff_eq, h.link?_eq_some_iff, and_iff_left rfl]
  incomingIds v := h.edgeIds.nodup.sublist (List.filter_sublist.map _)
  elementCount := by
    rw [← length_eq_ncard h.vertexIds.nodup fun id => h.isSome_element?_iff]
    exact (List.length_map _).symm
  linkCount := by
    rw [← length_eq_ncard h.edgeIds.nodup fun id => h.isSome_link?_iff]
    exact (List.length_map _).symm

/-- An addition to a valid store takes a number that names nothing. -/
theorem Valid.handsOutFresh (h : g.Valid) : g.HandsOutFresh where
  known e id hfind := addElement_of_find? hfind
  element e hfind := by
    have hadded : (g.vertexIds.next, e) ∈ (g.addElement e).2.elements :=
      (elements_addElement_perm hfind).mem_iff.mpr List.mem_cons_self
    have hid : (g.addElement e).1 = g.vertexIds.next := by rw [addElement_of_find?_none hfind]
    rw [hid]
    exact ⟨h.element?_eq_none_iff.mpr h.vertexIds.next_notMem,
      h.addElement.element?_eq_some_iff.mpr hadded⟩
  link source target edge := by
    refine ⟨?_, List.find?_cons_of_pos (beq_self_eq_true _)⟩
    rw [← Option.not_isSome_iff_eq_none, h.isSome_link?_iff]
    exact h.edgeIds.next_notMem

/-! ## What a patch keeps -/

theorem mem_elements_foldl_addElement {added : List Element} {entry : VertexId × Element}
    (hmem : entry ∈ g.elements) :
    entry ∈ (added.foldl (fun g e => (g.addElement e).2) g).elements := by
  induction added generalizing g with
  | nil => exact hmem
  | cons e rest ih => exact ih (mem_elements_addElement hmem)

theorem of_mem_elements_addElement {entry : VertexId × Element}
    (hmem : entry ∈ (g.addElement e).2.elements) : entry ∈ g.elements ∨ entry.2 = e := by
  cases hfind : g.find? e.key with
  | some id =>
      rw [addElement_of_find? hfind] at hmem
      exact Or.inl hmem
  | none =>
      rcases List.mem_cons.mp ((elements_addElement_perm hfind).mem_iff.mp hmem) with rfl | hmem
      · exact Or.inr rfl
      · exact Or.inl hmem

theorem of_mem_elements_foldl_addElement {added : List Element} {entry : VertexId × Element}
    (hmem : entry ∈ (added.foldl (fun g e => (g.addElement e).2) g).elements) :
    entry ∈ g.elements ∨ entry.2 ∈ added := by
  induction added generalizing g with
  | nil => exact Or.inl hmem
  | cons e rest ih =>
      rcases ih hmem with hmem | hmem
      · rcases of_mem_elements_addElement hmem with hmem | rfl
        · exact Or.inl hmem
        · exact Or.inr List.mem_cons_self
      · exact Or.inr (List.mem_cons_of_mem _ hmem)

/-- After an addition the identity is there, added or not. -/
theorem Valid.key_mem_addElement (h : g.Valid) (e : Element) : e.key ∈ (g.addElement e).2.keys := by
  cases hfind : g.find? e.key with
  | some id =>
      rw [addElement_of_find? hfind]
      obtain ⟨e', hmem, hkey⟩ := h.find?_eq_some_iff.mp hfind
      exact mem_keys_iff.mpr ⟨id, e', hmem, hkey⟩
  | none =>
      have hadded := (elements_addElement_perm hfind).mem_iff.mpr List.mem_cons_self
      exact mem_keys_iff.mpr ⟨_, e, hadded, rfl⟩

theorem Valid.key_mem_foldl_addElement (h : g.Valid) {added : List Element} (he : e ∈ added) :
    e.key ∈ (added.foldl (fun g e => (g.addElement e).2) g).keys := by
  induction added generalizing g with
  | nil => exact absurd he List.not_mem_nil
  | cons e' rest ih =>
      rcases List.mem_cons.mp he with rfl | he
      · obtain ⟨id, e', hmem, hkey⟩ := mem_keys_iff.mp (h.key_mem_addElement e)
        have hlater : (id, e') ∈ (rest.foldl (fun g e => (g.addElement e).2)
            (g.addElement e).2).elements := mem_elements_foldl_addElement hmem
        exact mem_keys_iff.mpr ⟨id, e', hlater, hkey⟩
      · exact ih h.addElement he

theorem Valid.foldl_addElement (h : g.Valid) (added : List Element) :
    (added.foldl (fun g e => (g.addElement e).2) g).Valid := by
  induction added generalizing g with
  | nil => exact h
  | cons e rest ih => exact ih h.addElement

theorem links_foldl_addElement (g : Store) (added : List Element) :
    (added.foldl (fun g e => (g.addElement e).2) g).links = g.links := by
  induction added generalizing g with
  | nil => rfl
  | cons e rest ih => rw [List.foldl_cons, ih, links_addElement]

/-- A link named by identity is added where both ends are, and else dropped. -/
theorem connect_cases (g : Store) (n : PendingLink) :
    g.connect n = g ∨ ∃ source target, g.find? n.source = some source ∧
      g.find? n.target = some target ∧ g.connect n = (g.addLink source target n.edge).2 := by
  rw [connect]
  split
  · next source target hsource htarget => exact Or.inr ⟨source, target, hsource, htarget, rfl⟩
  · exact Or.inl rfl

theorem Valid.mem_ids_of_find? (h : g.Valid) {key : ElementKey} (hfind : g.find? key = some id) :
    id ∈ g.ids :=
  h.mem_ids_of_keyOf? (h.keyOf?_eq_some_iff_find?.mpr hfind)

theorem Valid.mem_keys_of_find? (h : g.Valid) {key : ElementKey} (hfind : g.find? key = some id) :
    key ∈ g.keys := by
  obtain ⟨e, hmem, hkey⟩ := h.find?_eq_some_iff.mp hfind
  exact mem_keys_iff.mpr ⟨id, e, hmem, hkey⟩

theorem elements_connect (g : Store) (n : PendingLink) : (g.connect n).elements = g.elements := by
  rcases g.connect_cases n with hsame | ⟨source, target, -, -, hadded⟩
  · rw [hsame]
  · rw [hadded]
    rfl

theorem mem_links_connect {n : PendingLink} (hl : l ∈ g.links) : l ∈ (g.connect n).links := by
  rcases g.connect_cases n with hsame | ⟨source, target, -, -, hadded⟩
  · rwa [hsame]
  · rw [hadded]
    exact List.mem_cons_of_mem _ hl

theorem Valid.connect (h : g.Valid) (n : PendingLink) : (g.connect n).Valid := by
  rcases g.connect_cases n with hsame | ⟨source, target, hsource, htarget, hadded⟩
  · rwa [hsame]
  · rw [hadded]
    exact h.addLink n.edge (h.mem_ids_of_find? hsource) (h.mem_ids_of_find? htarget)

theorem Valid.foldl_connect (h : g.Valid) (added : List PendingLink) :
    (added.foldl Store.connect g).Valid ∧
      (added.foldl Store.connect g).elements = g.elements ∧
      ∀ l ∈ g.links, l ∈ (added.foldl Store.connect g).links := by
  induction added generalizing g with
  | nil => exact ⟨h, rfl, fun l hl => hl⟩
  | cons n rest ih =>
      obtain ⟨hvalid, helements, hlinks⟩ := ih (h.connect n)
      exact ⟨hvalid, helements.trans (g.elements_connect n),
        fun l hl => hlinks l (mem_links_connect hl)⟩

/-- A patch was applied: what it does not remove stays, nothing comes but what it
adds, and each identity that it adds is there. -/
structure Applied (g : Store) (p : Patch) : Prop where
  valid : (g.apply p).Valid
  kept : ∀ entry ∈ g.keptEntries p, entry ∈ (g.apply p).elements
  elements : ∀ entry ∈ (g.apply p).elements, entry ∈ g.keptEntries p ∨ entry.2 ∈ p.addedElements
  added : ∀ e ∈ p.addedElements, e.key ∈ (g.apply p).keys
  links : ∀ l ∈ g.keptLinks p, l ∈ (g.apply p).links

/-- Whatever a patch asks for, a valid store takes it. -/
theorem Valid.applied (h : g.Valid) (p : Patch) : g.Applied p := by
  obtain ⟨hvalid, helements, hlinks⟩ := h.removals p
  have happly : g.apply p = p.addedLinks.foldl Store.connect
      (p.addedElements.foldl (fun g e => (g.addElement e).2)
        (p.removedElements.foldl Store.removeElement
          (p.removedLinks.foldl Store.removeLink g))) := rfl
  generalize p.removedElements.foldl Store.removeElement
    (p.removedLinks.foldl Store.removeLink g) = left at hvalid helements hlinks happly
  obtain ⟨hconnected, hsame, hkept⟩ :=
    (hvalid.foldl_addElement p.addedElements).foldl_connect p.addedLinks
  rw [← happly] at hconnected hsame hkept
  rw [links_foldl_addElement, hlinks] at hkept
  constructor
  case valid => exact hconnected
  case kept =>
    intro entry hentry
    rw [hsame]
    exact mem_elements_foldl_addElement (helements ▸ hentry)
  case elements =>
    intro entry hentry
    rw [hsame] at hentry
    rw [← helements]
    exact of_mem_elements_foldl_addElement hentry
  case added =>
    intro e he
    rw [Store.keys, hsame]
    exact hvalid.key_mem_foldl_addElement he
  case links => exact hkept

end Store

namespace Operation

open Store

variable {g : Store} {op : Operation}

/-! ## One operation -/

/-- An allowed operation keeps a store valid. -/
theorem valid_perform (h : g.Valid) (hallowed : op.IsAllowed g) : (op.perform g).Valid := by
  cases op with
  | addElement e => exact h.addElement
  | addLink source target edge =>
      exact h.addLink edge (h.isSome_element?_iff.mp hallowed.1)
        (h.isSome_element?_iff.mp hallowed.2)
  | removeLink id => exact h.removeLink id
  | removeElement id => exact h.removeElement id
  | apply p => exact (h.applied p).valid
  | setOptions id options => exact h.update fun e => e.key_withOptions options
  | addMember id member => exact h.update fun e => e.key_addMember member

theorem mem_elements_update {id i : VertexId} {change : Element → Element} {e : Element}
    (hmem : (i, e) ∈ g.elements) (hne : id ≠ i) : (i, e) ∈ (g.update id change).elements := by
  rw [elements_update]
  exact List.mem_map.mpr ⟨(i, e), hmem, by rw [if_neg hne.symm]⟩

/-- An operation keeps the vertices that it neither removes nor changes. -/
theorem mem_elements_perform (h : g.Valid) {id : VertexId} {e : Element}
    (hmem : (id, e) ∈ g.elements) (hkept : ¬ op.RemovesElement id) (hsame : ¬ op.Changes id) :
    (id, e) ∈ (op.perform g).elements := by
  cases op with
  | addElement e => exact mem_elements_addElement hmem
  | addLink source target edge => exact hmem
  | removeLink i =>
      show _ ∈ (g.removeLink i).elements
      rwa [(removeLink_frame g i).1]
  | removeElement i =>
      show _ ∈ (g.removeElement i).elements
      rw [elements_removeElement h]
      exact List.mem_filter.mpr ⟨hmem, bne_iff_ne.mpr (Ne.symm hkept)⟩
  | apply p =>
      refine (h.applied p).kept _ (List.mem_filter.mpr ⟨hmem, ?_⟩)
      simpa [RemovesElement] using hkept
  | setOptions i options => exact mem_elements_update hmem hsame
  | addMember i member => exact mem_elements_update hmem hsame

/-- An operation keeps the edges that it does not remove. -/
theorem mem_links_perform (h : g.Valid) {l : Link} (hl : l ∈ g.links)
    (hkept : ¬ op.RemovesLink l) : l ∈ (op.perform g).links := by
  cases op with
  | addElement e =>
      show l ∈ (g.addElement e).2.links
      rwa [links_addElement]
  | addLink source target edge => exact List.mem_cons_of_mem _ hl
  | removeLink i =>
      show l ∈ (g.removeLink i).links
      rw [links_removeLink]
      exact List.mem_filter.mpr ⟨hl, bne_iff_ne.mpr (Ne.symm hkept)⟩
  | removeElement i =>
      show l ∈ (g.removeElement i).links
      rw [links_removeElement h]
      obtain ⟨hsource, htarget⟩ := not_or.mp hkept
      exact List.mem_filter.mpr ⟨hl, by simp [Ne.symm hsource, Ne.symm htarget]⟩
  | apply p =>
      refine (h.applied p).links _ (List.mem_filter.mpr ⟨hl, ?_⟩)
      simpa [RemovesLink] using hkept
  | setOptions i options => exact hl
  | addMember i member => exact hl

/-- An allowed operation leaves the rest of a valid store alone. -/
theorem keepsRest (h : g.Valid) (hallowed : op.IsAllowed g) : op.KeepsRest g where
  elements id e hid hkept hsame :=
    (valid_perform h hallowed).element?_eq_some_iff.mpr
      (mem_elements_perform h (h.element?_eq_some_iff.mp hid) hkept hsame)
  links id l hl hkept := by
    obtain ⟨hmem, hid⟩ := h.link?_eq_some_iff.mp hl
    exact (valid_perform h hallowed).link?_eq_some_iff.mpr ⟨mem_links_perform h hmem hkept, hid⟩

end Operation

namespace Store

/-! ## Any number of operations -/

/-- Every store that operations lead to is valid. -/
theorem Reachable.valid {g : Store} (h : g.Reachable) : g.Valid := by
  induction h with
  | empty => exact valid_empty
  | step op _ hallowed ih => exact Operation.valid_perform ih hallowed

/-- A store that operations lead to is consistent, hands out fresh numbers, and
any further operation leaves alone what it is not about. -/
theorem reachable_consistent {g : Store} (h : g.Reachable) :
    g.Consistent ∧ g.HandsOutFresh ∧ ∀ op : Operation, op.IsAllowed g → op.KeepsRest g :=
  ⟨h.valid.consistent, h.valid.handsOutFresh, fun _ hallowed =>
    Operation.keepsRest h.valid hallowed⟩

/-- A message without fields. -/
def bareMessage (name : String) : Element :=
  Element.ofName name "shop.proto" "" none ("[type=" ++ name ++ "]") .record 1
    (.message ⟨[], [], [], false⟩)

/-- A third message takes the number of the first one, which was removed with its
edge to the second. -/
theorem reachable_consistent_recycled :
    ∃ g : Store, g.Reachable ∧ g.find? (.message "Third") = some 0 ∧
      g.find? (.message "First") = none ∧ g.linkCount = 0 ∧ g.Consistent ∧ g.HandsOutFresh ∧
      ∀ op : Operation, op.IsAllowed g → op.KeepsRest g := by
  have hfirst := Reachable.empty.step (.addElement (bareMessage "First")) trivial
  have hsecond := hfirst.step (.addElement (bareMessage "Second")) trivial
  have hlinked := hsecond.step (.addLink 0 1 ⟨.typeRef, "[type=Second]", true⟩)
    ⟨by decide +kernel, by decide +kernel⟩
  have hremoved := hlinked.step (.removeElement 0) trivial
  have hthird := hremoved.step (.addElement (bareMessage "Third")) trivial
  exact ⟨_, hthird, by decide +kernel, by decide +kernel, by decide +kernel,
    reachable_consistent hthird⟩

end Store

end SchemaGraph

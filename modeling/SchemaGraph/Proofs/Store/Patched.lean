import SchemaGraph.Proofs.Store.Operations
import SchemaGraph.Proofs.Store.Requests

/-!
# What a patch means

The store that a patch leads to, said by what the patch was asked for
(`Store.Patched`):

* a vertex stays under its number unless its removal is asked for, and an edge
  unless its removal or that of one of its ends is;
* an element is added if no vertex that stays has its identity, and it is the first
  one asked for with it;
* a link is added once, and only if there is a vertex for both of its ends by then.

Nothing is assumed of the requests: numbers may name nothing, identities may be
taken or missing.  The four steps of a patch give numbers back and take them again,
but an addition names its ends by identity, so no number is used for what it no
longer names.  Which numbers the additions take is left open.
-/

namespace SchemaGraph

/-- Whether something is to be removed. -/
def Request.isRemoval : Request → Bool
  | .removeLink _ => true
  | .removeElement _ => true
  | .addElement _ => false
  | .addLink _ => false

namespace Store

/-- The vertices whose removal is not asked for. -/
def survivors (g : Store) (requests : List Request) : List (VertexId × Element) :=
  g.elements.filter fun entry => .removeElement entry.1 ∉ requests

/-- The edges whose removal is not asked for, nor that of one of their ends. -/
def survivingLinks (g : Store) (requests : List Request) : List Link :=
  g.links.filter fun l => .removeLink l.id ∉ requests ∧
    .removeElement l.source ∉ requests ∧ .removeElement l.target ∉ requests

/-- The elements that are asked for, the first one with each identity, without those
whose identity is that of a vertex that stays. -/
def newcomers (g : Store) (requests : List Request) : List Element :=
  (firsts Element.key (Patch.askedElements requests)).filter fun e =>
    e.key ∉ (g.survivors requests).map fun entry => entry.2.key

/-- The second store is the first one with requests carried out. -/
structure Patched (g : Store) (requests : List Request) (g' : Store) : Prop where
  consistent : g'.Consistent
  /-- What stays is as it was, under its number, and what is new is added. -/
  elements : ∃ added : List (VertexId × Element),
    g'.elements.Perm (g.survivors requests ++ added) ∧
      added.map Prod.snd = g.newcomers requests
  /-- There is one added edge for each of the different links with both ends. -/
  links : ∃ added : List Link,
    g'.links.Perm (g.survivingLinks requests ++ added) ∧
      added.map g'.nameOf? =
        ((firsts id (Patch.askedLinks requests)).filter fun n => !g'.lacksEnd n).map some

variable {g : Store} {requests requests' : List Request}

/-! ## The steps that add -/

/-- Of elements with different identities those are added that are not there. -/
theorem Valid.exists_newcomers (h : g.Valid) {asked : List Element}
    (hkeys : (asked.map Element.key).Nodup) :
    ∃ added, (asked.foldl (fun g e => (g.addElement e).2) g).elements.Perm (g.elements ++ added) ∧
      added.map Prod.snd = asked.filter fun e => e.key ∉ g.keys := by
  induction asked generalizing g with
  | nil => exact ⟨[], by simp, rfl⟩
  | cons e rest ih =>
      obtain ⟨hfirst, hrest⟩ := List.nodup_cons.mp hkeys
      obtain ⟨added, hperm, hadded⟩ := ih h.addElement hrest
      cases hfind : g.find? e.key with
      | some id =>
          have hthere : e.key ∈ g.keys := h.mem_keys_of_find? hfind
          rw [addElement_of_find? hfind] at hperm hadded
          refine ⟨added, ?_, ?_⟩
          · rw [List.foldl_cons, addElement_of_find? hfind]
            exact hperm
          · rw [hadded, List.filter_cons_of_neg (by simpa using hthere)]
      | none =>
          have hnew : e.key ∉ g.keys := h.find?_eq_none_iff.mp hfind
          have hplaced := elements_addElement_perm hfind
          refine ⟨(g.vertexIds.next, e) :: added, ?_, ?_⟩
          · rw [List.foldl_cons]
            exact hperm.trans ((hplaced.append_right added).trans List.perm_middle.symm)
          · rw [List.map_cons, hadded, List.filter_cons_of_pos (by simpa using hnew)]
            -- No later one has the identity that was just added.
            have hkeys' : (g.addElement e).2.keys.Perm (e.key :: g.keys) :=
              hplaced.map fun entry : VertexId × Element => entry.2.key
            refine congrArg (e :: ·) (List.filter_congr fun other hother => ?_)
            have hne : other.key ≠ e.key := fun heq =>
              hfirst (heq ▸ List.mem_map_of_mem hother)
            simp [hkeys'.mem_iff, hne]

/-- Added edges change neither the names of edges nor which ends there are. -/
theorem foldl_connect_frame (g : Store) (asked : List PendingLink) :
    (asked.foldl connect g).nameOf? = g.nameOf? ∧
      (asked.foldl connect g).lacksEnd = g.lacksEnd := by
  induction asked generalizing g with
  | nil => exact ⟨rfl, rfl⟩
  | cons n rest ih =>
      have hstep : (g.connect n).nameOf? = g.nameOf? ∧ (g.connect n).lacksEnd = g.lacksEnd := by
        rcases g.connect_cases n with hsame | ⟨source, target, -, -, hadded⟩
        · rw [hsame]
          exact ⟨rfl, rfl⟩
        · rw [hadded]
          exact ⟨rfl, rfl⟩
      obtain ⟨hnames, hlacks⟩ := ih (g.connect n)
      exact ⟨hnames.trans hstep.1, hlacks.trans hstep.2⟩

/-- Of links those are added that have both ends. -/
theorem Valid.exists_connected (h : g.Valid) (asked : List PendingLink) :
    ∃ added, (asked.foldl Store.connect g).links.Perm (g.links ++ added) ∧
      added.map g.nameOf? = (asked.filter fun n => !g.lacksEnd n).map some := by
  induction asked generalizing g with
  | nil => exact ⟨[], by simp, rfl⟩
  | cons n rest ih =>
      obtain ⟨added, hperm, hadded⟩ := ih (h.connect n)
      obtain ⟨hnames, hlacks⟩ := foldl_connect_frame g [n]
      rw [List.foldl_cons, List.foldl_nil] at hnames hlacks
      rw [hnames, hlacks] at hadded
      rw [List.foldl_cons]
      cases hends : g.lacksEnd n with
      | true =>
          have hsame : g.connect n = g := by
            rcases g.connect_cases n with hsame | ⟨source, target, hsource, htarget, -⟩
            · exact hsame
            · simp [lacksEnd, hsource, htarget] at hends
          rw [hsame] at hperm ⊢
          exact ⟨added, hperm, by rw [hadded, List.filter_cons_of_neg (by simp [hends])]⟩
      | false =>
          rw [lacksEnd, Bool.or_eq_false_iff, Option.isNone_eq_false_iff,
            Option.isNone_eq_false_iff] at hends
          obtain ⟨source, hsource⟩ := Option.isSome_iff_exists.mp hends.1
          obtain ⟨target, htarget⟩ := Option.isSome_iff_exists.mp hends.2
          have hlink : (g.connect n).links =
              ⟨g.edgeIds.next, source, target, n.edge⟩ :: g.links := by
            rw [Store.connect, hsource, htarget]
            rfl
          have hname : g.nameOf? ⟨g.edgeIds.next, source, target, n.edge⟩ = some n :=
            nameOf?_eq_some_iff.mpr ⟨h.keyOf?_eq_some_iff_find?.mpr hsource,
              h.keyOf?_eq_some_iff_find?.mpr htarget, rfl⟩
          rw [hlink] at hperm
          refine ⟨_ :: added, hperm.trans List.perm_middle.symm, ?_⟩
          rw [List.map_cons, hname, hadded,
            List.filter_cons_of_pos (by simp [lacksEnd, hsource, htarget])]
          rfl

/-! ## A whole patch -/

theorem keptEntries_requestAll (g : Store) (requests : List Request) :
    g.keptEntries (Patch.requestAll {} requests) = g.survivors requests := by
  refine List.filter_congr fun entry _ => ?_
  simp [(Patch.answers_requestAll requests).removedElements]

theorem keptLinks_requestAll (g : Store) (requests : List Request) :
    g.keptLinks (Patch.requestAll {} requests) = g.survivingLinks requests := by
  refine List.filter_congr fun l _ => ?_
  simp [(Patch.answers_requestAll requests).removedElements,
    (Patch.answers_requestAll requests).removedLinks]

/-- A valid store with a patch applied is as the requests say. -/
theorem Valid.patched (h : g.Valid) (requests : List Request) :
    g.Patched requests (g.apply (Patch.requestAll {} requests)) := by
  obtain ⟨hleft, helements, hlinks⟩ := h.removals (Patch.requestAll {} requests)
  have hconsistent := (h.applied (Patch.requestAll {} requests)).valid.consistent
  rw [apply, applyElements] at hconsistent ⊢
  rw [keptEntries_requestAll] at helements
  rw [keptLinks_requestAll] at hlinks
  -- What is removed is gone; the two steps that add go on from there.
  generalize (Patch.requestAll {} requests).removedElements.foldl Store.removeElement
    ((Patch.requestAll {} requests).removedLinks.foldl Store.removeLink g) = left at *
  have hkeys := (Patch.answers_requestAll requests).nodupKeys
  rw [Patch.addedElements_requestAll] at hkeys hconsistent ⊢
  obtain ⟨entries, hentries, hnew⟩ := hleft.exists_newcomers hkeys
  have hsettled := hleft.foldl_addElement (firsts Element.key (Patch.askedElements requests))
  have hsame := links_foldl_addElement left (firsts Element.key (Patch.askedElements requests))
  generalize (firsts Element.key (Patch.askedElements requests)).foldl
    (fun g e => (g.addElement e).2) left = settled at *
  rw [Patch.addedLinks_requestAll] at hconsistent ⊢
  obtain ⟨links, hlinked, hnames⟩ := hsettled.exists_connected
    (firsts id (Patch.askedLinks requests))
  obtain ⟨hname, hlacks⟩ := foldl_connect_frame settled (firsts id (Patch.askedLinks requests))
  refine ⟨hconsistent, ⟨entries, ?_, ?_⟩, links, ?_, ?_⟩
  · rw [(hsettled.foldl_connect _).2.1, ← helements]
    exact hentries
  · rw [hnew, newcomers, Store.keys, helements]
  · rw [← hlinks, ← hsame]
    exact hlinked
  · rw [hname, hlacks]
    exact hnames

end Store

/-- The patch does not depend on the order in which removals are asked for, nor on
what is asked for in between. -/
theorem Patch.requestAll_of_removals {requests requests' : List Request}
    (hremovals : (requests.filter Request.isRemoval).Perm (requests'.filter Request.isRemoval))
    (hadditions : requests.filter (fun r => !r.isRemoval) =
      requests'.filter fun r => !r.isRemoval) :
    requestAll {} requests = requestAll {} requests' := by
  have hmem (r : Request) (hr : r.isRemoval = true) : r ∈ requests ↔ r ∈ requests' := by
    have hiff := hremovals.mem_iff (a := r)
    rwa [List.mem_filter, List.mem_filter, and_iff_left hr, and_iff_left hr] at hiff
  have helements (requests : List Request) : askedElements requests =
      askedElements (requests.filter fun r => !r.isRemoval) := by
    rw [askedElements, askedElements, List.filterMap_filter]
    exact List.filterMap_congr fun r _ => by cases r <;> rfl
  have hlinks (requests : List Request) : askedLinks requests =
      askedLinks (requests.filter fun r => !r.isRemoval) := by
    rw [askedLinks, askedLinks, List.filterMap_filter]
    exact List.filterMap_congr fun r _ => by cases r <;> rfl
  refine requestAll_congr (fun id => hmem _ rfl) (fun id => hmem _ rfl) ?_ ?_
  · rw [helements requests, hadditions, ← helements]
  · rw [hlinks requests, hadditions, ← hlinks]

namespace Store

variable {g : Store}

/-- A patch does to a store that operations lead to what its requests say, in whatever
order the removals among them are made. -/
theorem reachable_patched (h : g.Reachable) (requests : List Request) :
    g.Patched requests (g.apply (Patch.requestAll {} requests)) ∧
      ∀ requests' : List Request,
        (requests.filter Request.isRemoval).Perm (requests'.filter Request.isRemoval) →
        requests.filter (fun r => !r.isRemoval) = requests'.filter (fun r => !r.isRemoval) →
        g.apply (Patch.requestAll {} requests') = g.apply (Patch.requestAll {} requests) := by
  refine ⟨h.valid.patched requests, fun requests' hremovals hadditions => ?_⟩
  rw [Patch.requestAll_of_removals hremovals hadditions]

/-- Requests with an unknown vertex and an unknown edge to remove, an identity that is
asked for twice and one that is taken, a link that is asked for twice and one whose
source is removed. -/
def mixedRequests : List Request :=
  [.addElement (bareMessage "Third"), .removeElement 0, .removeLink 9,
   .addElement { bareMessage "Third" with file := "other.proto" },
   .addElement { bareMessage "Second" with file := "other.proto" }, .removeElement 7,
   .addLink ⟨.message "Third", .message "Second", ⟨.typeRef, "[type=Second]", true⟩⟩,
   .addLink ⟨.message "First", .message "Second", ⟨.typeRef, "[type=Second]", true⟩⟩,
   .addLink ⟨.message "Third", .message "Second", ⟨.typeRef, "[type=Second]", true⟩⟩]

/-- The same requests, the removals from the last to the first and after all others. -/
def lateRemovals : List Request :=
  mixedRequests.filter (fun r => !r.isRemoval) ++
    (mixedRequests.filter Request.isRemoval).reverse

/-- A message and an edge take the numbers of those that the patch removes, and a loop
stays; the removals may as well be asked for last. -/
theorem reachable_patched_mixedRequests :
    ∃ g : Store, g.Reachable ∧
      g.Patched mixedRequests (g.apply (Patch.requestAll {} mixedRequests)) ∧
      (mixedRequests.filter Request.isRemoval).Perm (lateRemovals.filter Request.isRemoval) ∧
      mixedRequests.filter (fun r => !r.isRemoval) = lateRemovals.filter (fun r => !r.isRemoval) ∧
      g.apply (Patch.requestAll {} lateRemovals) = g.apply (Patch.requestAll {} mixedRequests) ∧
      (g.apply (Patch.requestAll {} mixedRequests)).elements =
        [(0, bareMessage "Third"), (1, bareMessage "Second")] ∧
      (g.apply (Patch.requestAll {} mixedRequests)).links =
        [⟨0, 0, 1, ⟨.typeRef, "[type=Second]", true⟩⟩,
         ⟨1, 1, 1, ⟨.field, "[type=Second]", true⟩⟩] := by
  have hfirst := Reachable.empty.step (.addElement (bareMessage "First")) trivial
  have hsecond := hfirst.step (.addElement (bareMessage "Second")) trivial
  have hlinked := hsecond.step (.addLink 0 1 ⟨.typeRef, "[type=Second]", true⟩)
    ⟨by decide +kernel, by decide +kernel⟩
  have hloop := hlinked.step (.addLink 1 1 ⟨.field, "[type=Second]", true⟩)
    ⟨by decide +kernel, by decide +kernel⟩
  have hremovals : (mixedRequests.filter Request.isRemoval).Perm
      (lateRemovals.filter Request.isRemoval) := by decide +kernel
  have hadditions : mixedRequests.filter (fun r => !r.isRemoval) =
      lateRemovals.filter fun r => !r.isRemoval := by decide +kernel
  obtain ⟨hpatched, horder⟩ := reachable_patched hloop mixedRequests
  exact ⟨_, hloop, hpatched, hremovals, hadditions, horder _ hremovals hadditions,
    by decide +kernel, by decide +kernel⟩

end Store

end SchemaGraph

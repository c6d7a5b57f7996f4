import Mathlib.Data.List.Induction
import SchemaGraph.Graph.Patch
import SchemaGraph.Proofs.Store.Valid

/-!
# Requests to a patch

A patch by the changes that it is asked for, one after the other.

* `Patch.Answers` says that a patch has exactly what was asked for, each once;
  every request keeps it (`Answers.request`), so any list of requests leads to a
  patch that answers them (`answers_requestAll`);
* what a patch adds is, in order, what was asked for first under each identity
  (`addedElements_requestAll`, `addedLinks_requestAll`);
* what it removes does not depend on the order of the requests, so neither does
  the patch (`requestAll_congr`).

What a patch does to a store is not described here.
-/

namespace SchemaGraph

/-! ## Lists without repetition -/

/-- The first entry with each value of `f`, in order. -/
def firsts {α κ : Type} [BEq κ] (f : α → κ) : List α → List α
  | [] => []
  | a :: rest => a :: (firsts f rest).filter fun b => f b != f a

section Firsts

variable {α κ : Type} [BEq κ] [LawfulBEq κ] (f : α → κ)

/-- An entry is the first one with its value if a search for this value finds it. -/
theorem mem_firsts_iff {as : List α} {a : α} :
    a ∈ firsts f as ↔ as.find? (fun b => f b == f a) = some a := by
  induction as with
  | nil => simp [firsts]
  | cons b rest ih =>
      rw [firsts, List.mem_cons, List.mem_filter, ih, List.find?_cons, bne_iff_ne]
      by_cases hb : f b = f a
      · rw [hb, beq_self_eq_true]
        simp [eq_comm]
      · rw [beq_false_of_ne hb]
        have hne : a ≠ b := fun heq => hb (heq ▸ rfl)
        simp [hne, Ne.symm hb]

/-- A later entry counts if its value is new. -/
theorem firsts_append_singleton (as : List α) (a : α) :
    firsts f (as ++ [a]) =
      if (firsts f as).any fun b => f b == f a then firsts f as else firsts f as ++ [a] := by
  induction as with
  | nil => rfl
  | cons b rest ih =>
      have hany : ((firsts f rest).filter fun c => f c != f b).any (fun c => f c == f a) =
          (!(f b == f a) && (firsts f rest).any fun c => f c == f a) := by
        rw [List.any_filter, Bool.eq_iff_iff]
        simp only [List.any_eq_true, Bool.and_eq_true, bne_iff_ne, beq_iff_eq, Bool.not_eq_true',
          beq_eq_false_iff_ne]
        constructor
        · rintro ⟨c, hc, hne, heq⟩
          exact ⟨heq ▸ Ne.symm hne, c, hc, heq⟩
        · rintro ⟨hne, c, hc, heq⟩
          exact ⟨c, hc, heq ▸ Ne.symm hne, heq⟩
      rw [List.cons_append, firsts, ih, firsts, List.any_cons, hany]
      by_cases hb : f b = f a
      · -- The first entry has the value already, so the last one is left out.
        rw [hb, beq_self_eq_true, Bool.true_or, if_pos rfl]
        split
        · rfl
        · simp [List.filter_append]
      · rw [beq_false_of_ne hb, Bool.false_or, Bool.not_false, Bool.true_and]
        split
        · rfl
        · simp [List.filter_append, Ne.symm hb]

end Firsts

namespace Ordered

theorem pairwise_insertNat {n : Nat} {set : List Nat} (h : set.Pairwise (· < ·)) :
    (insertNat n set).Pairwise (· < ·) := by
  induction set with
  | nil => exact List.pairwise_singleton _ _
  | cons m rest ih =>
      obtain ⟨hfirst, hrest⟩ := List.pairwise_cons.mp h
      rw [insertNat]
      split
      · next hlt =>
        refine List.pairwise_cons.mpr ⟨fun k hk => ?_, h⟩
        rcases List.mem_cons.mp hk with rfl | hk
        · exact hlt
        · exact Nat.lt_trans hlt (hfirst k hk)
      · split
        · exact h
        · refine List.pairwise_cons.mpr ⟨fun k hk => ?_, ih hrest⟩
          rcases mem_insertNat.mp hk with rfl | hk
          · omega
          · exact hfirst k hk

theorem pairwise_natSet (ns : List Nat) : (natSet ns).Pairwise (· < ·) :=
  List.foldlRecOn ns _ List.Pairwise.nil fun _ h _ _ => pairwise_insertNat h

/-- Ascending lists of the same numbers are the same. -/
theorem eq_of_mem_iff {ns ms : List Nat} (hns : ns.Pairwise (· < ·)) (hms : ms.Pairwise (· < ·))
    (hmem : ∀ n, n ∈ ns ↔ n ∈ ms) : ns = ms := by
  refine List.Perm.eq_of_pairwise (fun a b _ _ hab hba => ?_) hns hms ?_
  · exact absurd hba (Nat.lt_asymm hab)
  · exact (List.perm_ext_iff_of_nodup (hns.imp Nat.ne_of_lt) (hms.imp Nat.ne_of_lt)).mpr hmem

end Ordered

/-! ## Requests -/

/-- One change that a patch is asked for. -/
inductive Request where
  | removeLink (id : EdgeId)
  | removeElement (id : VertexId)
  | addElement (e : Element)
  | addLink (l : PendingLink)
  deriving DecidableEq

namespace Patch

/-- The patch with one more change. -/
def request (p : Patch) : Request → Patch
  | .removeLink id => p.removeLink id
  | .removeElement id => p.removeElement id
  | .addElement e => p.addElement e
  | .addLink l => p.addLink l

/-- The patch with further changes, one after the other. -/
def requestAll (p : Patch) (requests : List Request) : Patch := requests.foldl request p

/-- A patch has what was asked for and nothing else.  Of several elements with one
identity it adds one. -/
structure Answers (p : Patch) (requests : List Request) : Prop where
  removedLinks : ∀ id, id ∈ p.removedLinks ↔ .removeLink id ∈ requests
  removedElements : ∀ id, id ∈ p.removedElements ↔ .removeElement id ∈ requests
  addedLinks : ∀ l, l ∈ p.addedLinks ↔ .addLink l ∈ requests
  nodupLinks : p.addedLinks.Nodup
  addedElements : ∀ e ∈ p.addedElements, .addElement e ∈ requests
  addedKeys : ∀ e, .addElement e ∈ requests → e.key ∈ p.addedElements.map Element.key
  nodupKeys : (p.addedElements.map Element.key).Nodup

variable {p : Patch} {requests : List Request}

theorem requestAll_append (p : Patch) (before after : List Request) :
    p.requestAll (before ++ after) = (p.requestAll before).requestAll after :=
  List.foldl_append

theorem answers_nil : ({} : Patch).Answers [] where
  removedLinks := by simp
  removedElements := by simp
  addedLinks := by simp
  nodupLinks := List.nodup_nil
  addedElements := by simp
  addedKeys := by simp
  nodupKeys := List.nodup_nil

theorem Answers.removeLink (h : p.Answers requests) (id : EdgeId) :
    (p.removeLink id).Answers (requests ++ [.removeLink id]) where
  removedLinks i := by
    rw [Patch.removeLink, Ordered.mem_insertNat, h.removedLinks, List.mem_append,
      List.mem_singleton, Request.removeLink.injEq, or_comm]
  removedElements i := by simpa [Patch.removeLink] using h.removedElements i
  addedLinks l := by simpa [Patch.removeLink] using h.addedLinks l
  nodupLinks := h.nodupLinks
  addedElements e he := List.mem_append_left _ (h.addedElements e he)
  addedKeys e he := h.addedKeys e (by simpa using he)
  nodupKeys := h.nodupKeys

theorem Answers.removeElement (h : p.Answers requests) (id : VertexId) :
    (p.removeElement id).Answers (requests ++ [.removeElement id]) where
  removedLinks i := by simpa [Patch.removeElement] using h.removedLinks i
  removedElements i := by
    rw [Patch.removeElement, Ordered.mem_insertNat, h.removedElements, List.mem_append,
      List.mem_singleton, Request.removeElement.injEq, or_comm]
  addedLinks l := by simpa [Patch.removeElement] using h.addedLinks l
  nodupLinks := h.nodupLinks
  addedElements e he := List.mem_append_left _ (h.addedElements e he)
  addedKeys e he := h.addedKeys e (by simpa using he)
  nodupKeys := h.nodupKeys

theorem Answers.addElement (h : p.Answers requests) (e : Element) :
    (p.addElement e).Answers (requests ++ [.addElement e]) := by
  unfold Patch.addElement
  split
  · -- Another element with the identity was asked for first, and stays.
    next hmem =>
    have hkey : e.key ∈ p.addedElements.map Element.key := by simpa using hmem
    refine ⟨fun i => by simpa using h.removedLinks i, fun i => by simpa using h.removedElements i,
      fun l => by simpa using h.addedLinks l, h.nodupLinks,
      fun e he => List.mem_append_left _ (h.addedElements e he), fun other he => ?_, h.nodupKeys⟩
    rcases List.mem_append.mp he with he | he
    · exact h.addedKeys other he
    · obtain rfl := Request.addElement.inj (List.mem_singleton.mp he)
      exact hkey
  · next hmem =>
    have hkey : e.key ∉ p.addedElements.map Element.key := by simpa using hmem
    refine ⟨fun i => by simpa using h.removedLinks i, fun i => by simpa using h.removedElements i,
      fun l => by simpa using h.addedLinks l, h.nodupLinks, fun other he => ?_,
      fun other he => ?_, ?_⟩
    · rcases List.mem_append.mp he with he | he
      · exact List.mem_append_left _ (h.addedElements other he)
      · rw [List.mem_singleton.mp he]
        exact List.mem_append_right _ (List.mem_singleton_self _)
    · rw [List.map_append]
      rcases List.mem_append.mp he with he | he
      · exact List.mem_append_left _ (h.addedKeys other he)
      · obtain rfl := Request.addElement.inj (List.mem_singleton.mp he)
        exact List.mem_append_right _ (List.mem_singleton_self _)
    · rw [List.map_append]
      exact (List.perm_append_singleton _ _).nodup_iff.mpr (List.nodup_cons.mpr ⟨hkey, h.nodupKeys⟩)

theorem Answers.addLink (h : p.Answers requests) (l : PendingLink) :
    (p.addLink l).Answers (requests ++ [.addLink l]) := by
  unfold Patch.addLink
  split
  · next hmem =>
    rw [List.contains_iff_mem] at hmem
    refine ⟨fun i => by simpa using h.removedLinks i, fun i => by simpa using h.removedElements i,
      fun other => ?_, h.nodupLinks, fun e he => List.mem_append_left _ (h.addedElements e he),
      fun e he => h.addedKeys e (by simpa using he), h.nodupKeys⟩
    rw [h.addedLinks, List.mem_append, List.mem_singleton, Request.addLink.injEq]
    exact ⟨Or.inl, fun hor => hor.elim id fun heq => heq ▸ (h.addedLinks l).mp hmem⟩
  · next hmem =>
    rw [List.contains_iff_mem] at hmem
    refine ⟨fun i => by simpa using h.removedLinks i, fun i => by simpa using h.removedElements i,
      fun other => ?_, ?_, fun e he => List.mem_append_left _ (h.addedElements e he),
      fun e he => h.addedKeys e (by simpa using he), h.nodupKeys⟩
    · rw [List.mem_append, h.addedLinks, List.mem_append, List.mem_singleton, List.mem_singleton,
        Request.addLink.injEq]
    · exact (List.perm_append_singleton _ _).nodup_iff.mpr
        (List.nodup_cons.mpr ⟨hmem, h.nodupLinks⟩)

/-- One more request is answered as well. -/
theorem Answers.request (h : p.Answers requests) (r : Request) :
    (p.request r).Answers (requests ++ [r]) := by
  cases r with
  | removeLink id => exact h.removeLink id
  | removeElement id => exact h.removeElement id
  | addElement e => exact h.addElement e
  | addLink l => exact h.addLink l

/-- Whatever the requests, the patch that they lead to answers them. -/
theorem answers_requestAll (requests : List Request) :
    (requestAll {} requests).Answers requests := by
  -- Requests are made from the first to the last, so the induction is from the end.
  induction requests using List.reverseRecOn with
  | nil => exact answers_nil
  | append_singleton before r ih =>
      rw [requestAll_append]
      exact ih.request r

/-! ## What is added, in order -/

/-- The elements that requests ask to add, in order. -/
def askedElements (requests : List Request) : List Element :=
  requests.filterMap fun
    | .addElement e => some e
    | _ => none

/-- The links that requests ask to add, in order. -/
def askedLinks (requests : List Request) : List PendingLink :=
  requests.filterMap fun
    | .addLink l => some l
    | _ => none

theorem askedElements_append (before after : List Request) :
    askedElements (before ++ after) = askedElements before ++ askedElements after :=
  List.filterMap_append

theorem askedLinks_append (before after : List Request) :
    askedLinks (before ++ after) = askedLinks before ++ askedLinks after :=
  List.filterMap_append

/-- A request that adds no element leaves the added ones as they are. -/
theorem addedElements_request {r : Request} (h : askedElements [r] = []) :
    (p.request r).addedElements = p.addedElements := by
  cases r with
  | addElement e => cases h
  | removeLink i => rfl
  | removeElement i => rfl
  | addLink l =>
      rw [request, Patch.addLink]
      split <;> rfl

/-- A request that adds no link leaves the added ones as they are. -/
theorem addedLinks_request {r : Request} (h : askedLinks [r] = []) :
    (p.request r).addedLinks = p.addedLinks := by
  cases r with
  | addLink l => cases h
  | removeLink i => rfl
  | removeElement i => rfl
  | addElement e =>
      rw [request, Patch.addElement]
      split <;> rfl

/-- Of the elements with one identity a patch adds the one that is asked for first. -/
theorem addedElements_requestAll (requests : List Request) :
    (requestAll {} requests).addedElements = firsts Element.key (askedElements requests) := by
  induction requests using List.reverseRecOn with
  | nil => rfl
  | append_singleton before r ih =>
      rw [requestAll_append, askedElements_append]
      show ((requestAll {} before).request r).addedElements = _
      have hother (h : askedElements [r] = []) :
          ((requestAll {} before).request r).addedElements =
            firsts Element.key (askedElements before ++ askedElements [r]) := by
        rw [h, List.append_nil, addedElements_request h, ih]
      cases r with
      | removeLink i => exact hother rfl
      | removeElement i => exact hother rfl
      | addLink l => exact hother rfl
      | addElement e =>
          show ((requestAll {} before).addElement e).addedElements = firsts _ (_ ++ [e])
          rw [firsts_append_singleton, ← ih, Patch.addElement]
          split <;> rfl

/-- Of equal links a patch adds the one that is asked for first. -/
theorem addedLinks_requestAll (requests : List Request) :
    (requestAll {} requests).addedLinks = firsts id (askedLinks requests) := by
  induction requests using List.reverseRecOn with
  | nil => rfl
  | append_singleton before r ih =>
      rw [requestAll_append, askedLinks_append]
      show ((requestAll {} before).request r).addedLinks = _
      have hother (h : askedLinks [r] = []) :
          ((requestAll {} before).request r).addedLinks =
            firsts id (askedLinks before ++ askedLinks [r]) := by
        rw [h, List.append_nil, addedLinks_request h, ih]
      cases r with
      | removeLink i => exact hother rfl
      | removeElement i => exact hother rfl
      | addElement e => exact hother rfl
      | addLink l =>
          show ((requestAll {} before).addLink l).addedLinks = firsts _ (_ ++ [l])
          rw [firsts_append_singleton, ← ih, Patch.addLink]
          split
          · next hmem => exact (if_pos (by simpa using hmem)).symm
          · next hmem => exact (if_neg (by simpa using hmem)).symm

/-- Of the elements with one identity a patch adds the first one that a search finds. -/
theorem mem_addedElements_requestAll {e : Element} (requests : List Request) :
    e ∈ (requestAll {} requests).addedElements ↔
      (askedElements requests).find? (fun other => other.key == e.key) = some e := by
  rw [addedElements_requestAll, mem_firsts_iff]

/-! ## The order of removals -/

theorem pairwise_removed (requests : List Request) :
    (requestAll {} requests).removedLinks.Pairwise (· < ·) ∧
      (requestAll {} requests).removedElements.Pairwise (· < ·) := by
  induction requests using List.reverseRecOn with
  | nil => exact ⟨List.Pairwise.nil, List.Pairwise.nil⟩
  | append_singleton before r ih =>
      rw [requestAll_append]
      cases r with
      | removeLink id => exact ⟨Ordered.pairwise_insertNat ih.1, ih.2⟩
      | removeElement id => exact ⟨ih.1, Ordered.pairwise_insertNat ih.2⟩
      | addElement e =>
          show ((requestAll {} before).addElement e).removedLinks.Pairwise _ ∧
            ((requestAll {} before).addElement e).removedElements.Pairwise _
          rw [Patch.addElement]
          split <;> exact ih
      | addLink l =>
          show ((requestAll {} before).addLink l).removedLinks.Pairwise _ ∧
            ((requestAll {} before).addLink l).removedElements.Pairwise _
          rw [Patch.addLink]
          split <;> exact ih

/-- Requests that remove the same and add the same in the same order lead to one patch. -/
theorem requestAll_congr {requests requests' : List Request}
    (hlinks : ∀ id, .removeLink id ∈ requests ↔ .removeLink id ∈ requests')
    (helements : ∀ id, .removeElement id ∈ requests ↔ .removeElement id ∈ requests')
    (haskedElements : askedElements requests = askedElements requests')
    (haskedLinks : askedLinks requests = askedLinks requests') :
    requestAll {} requests = requestAll {} requests' := by
  have hanswers := answers_requestAll requests
  have hanswers' := answers_requestAll requests'
  obtain ⟨hascending, hascending'⟩ := pairwise_removed requests
  obtain ⟨hascends, hascends'⟩ := pairwise_removed requests'
  have hremovedLinks := Ordered.eq_of_mem_iff hascending hascends fun id => by
    rw [hanswers.removedLinks, hanswers'.removedLinks, hlinks]
  have hremovedElements := Ordered.eq_of_mem_iff hascending' hascends' fun id => by
    rw [hanswers.removedElements, hanswers'.removedElements, helements]
  have haddedElements :
      (requestAll {} requests).addedElements = (requestAll {} requests').addedElements := by
    rw [addedElements_requestAll, addedElements_requestAll, haskedElements]
  have haddedLinks :
      (requestAll {} requests).addedLinks = (requestAll {} requests').addedLinks := by
    rw [addedLinks_requestAll, addedLinks_requestAll, haskedLinks]
  exact (Patch.mk.injEq ..).mpr ⟨hremovedLinks, hremovedElements, haddedElements, haddedLinks⟩

end Patch

end SchemaGraph

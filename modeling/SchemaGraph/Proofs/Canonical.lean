import SchemaGraph.Graph.Canonical
import SchemaGraph.Proofs.Flatten.Content

/-!
# Canonical forms

The canonical form of a graph says what its store holds and which element is its
root, and nothing of numbers: the lines are those of the elements and of the named
links (`canonicalForm_eq`), and sorting leaves no trace of their order.  Graphs whose
stores are alike and whose roots have the same identity have the same form
(`canonicalForm_eq_of_alike`).
-/

namespace SchemaGraph

namespace Ordered


/-- Sorting by a text puts the texts in order. -/
theorem pairwise_sort_by {α : Type} (text : α → String) (as : List α) :
    (sort (fun a b => decide (text a ≤ text b)) as).Pairwise fun a b => text a ≤ text b := by
  rw [sort_eq_insertionSort]
  simp only [decide_eq_true_eq]
  have htotal : Std.Total fun a b => text a ≤ text b := ⟨fun a b => String.le_total _ _⟩
  have htrans : IsTrans α fun a b => text a ≤ text b := ⟨fun a b c => String.le_trans⟩
  exact List.pairwise_insertionSort _ as

end Ordered

/-- The line of a link by the identities of its ends. -/
def PendingLink.line (n : PendingLink) : String :=
  Text.join "|" ["E", n.source.text, n.target.text, n.edge.kind.name, n.edge.type,
    RootedGraph.flagText n.edge.isMessageType]

namespace RootedGraph

theorem sortLines_perm (lines : List String) : (sortLines lines).Perm lines := by
  rw [sortLines, Ordered.sort_eq_insertionSort]
  exact List.perm_insertionSort _ lines

/-- Sorted lines do not depend on the order that they had. -/
theorem sortLines_eq_of_perm {lines lines' : List String} (h : lines.Perm lines') :
    sortLines lines = sortLines lines' := by
  have hsorted (lines : List String) : (sortLines lines).Pairwise (· ≤ ·) :=
    Ordered.pairwise_sort_by id lines
  refine List.Perm.eq_of_pairwise (fun a b _ _ hab hba => ?_) (hsorted lines) (hsorted lines') ?_
  · exact String.le_antisymm hab hba
  · exact (sortLines_perm lines).trans (h.trans (sortLines_perm lines').symm)

variable {g g' : RootedGraph}

theorem keyText_of_keyOf? {id : VertexId} {key : ElementKey}
    (h : g.store.keyOf? id = some key) : g.keyText id = key.text := by
  rw [Store.keyOf?] at h
  obtain ⟨e, he, rfl⟩ := Option.map_eq_some_iff.mp h
  rw [keyText, he]

theorem linkLines_eq (h : g.store.Valid) :
    g.store.links.map g.linkLine = g.store.namedLinks.map PendingLink.line := by
  rw [Store.namedLinks, List.map_filterMap, ← List.filterMap_eq_map]
  refine List.filterMap_congr fun l hl => ?_
  obtain ⟨n, hn⟩ := h.exists_nameOf? hl
  obtain ⟨hsource, htarget, hedge⟩ := Store.nameOf?_eq_some_iff.mp hn
  rw [hn, Option.map_some, Function.comp_apply, linkLine, keyText_of_keyOf? hsource,
    keyText_of_keyOf? htarget, hedge]
  rfl

/-- The canonical form by what the store holds. -/
theorem canonicalForm_eq (h : g.store.Valid) :
    g.canonicalForm = sortLines (g.store.contents.map elementLine) ++
      sortLines (g.store.namedLinks.map PendingLink.line) ++ ["R|" ++ g.keyText g.rootId] := by
  rw [canonicalForm, linkLines_eq h, Store.contents, List.map_map]
  rfl

theorem canonicalForm_eq_of_alike (h : g.store.Alike g'.store)
    (hroot : g.keyText g.rootId = g'.keyText g'.rootId) : g.canonicalForm = g'.canonicalForm := by
  rw [canonicalForm_eq h.valid, canonicalForm_eq h.valid', hroot,
    sortLines_eq_of_perm (h.contents.map elementLine),
    sortLines_eq_of_perm (h.links.map PendingLink.line)]

end RootedGraph

end SchemaGraph

import Mathlib.Data.List.Chain
import Mathlib.Data.List.Nodup
import SchemaGraph.Graph.Path
import SchemaGraph.Proofs.Store.Valid

/-!
# Walks along links

What the search for paths lists, said without the search.

* `Store.Walk`: links of the store, each leaving the vertex that the one before it
  enters;
* `Store.Extends`: a walk that ends at a target, enters no vertex twice and none
  that has been visited;
* `mem_extensions_iff` says that the search lists exactly these, and
  `nodup_extensions` that it lists each of them once.

The order in which they are listed is left open.
-/

namespace SchemaGraph

namespace Store

/-- Links that `follow` accepts, each leaving the vertex that the one before it
enters, the first one a given vertex. -/
inductive Walk (g : Store) (follow : Edge → Bool) : VertexId → List Link → Prop where
  | nil (v : VertexId) : g.Walk follow v []
  | cons {v : VertexId} {l : Link} {rest : List Link} (hl : l ∈ g.outgoing v)
      (hfollow : follow l.edge = true) (hrest : g.Walk follow l.target rest) :
      g.Walk follow v (l :: rest)

/-- A walk to a target that enters no vertex twice and none that has been visited. -/
structure Extends (g : Store) (follow : Edge → Bool) (target : VertexId)
    (visited : List VertexId) (v : VertexId) (links : List Link) : Prop where
  walk : g.Walk follow v links
  new : ∀ l ∈ links, l.target ∉ visited
  simple : (links.map Link.target).Nodup
  last : (links.map Link.target).getLast? = some target

section Walks

variable {g : Store} {follow : Edge → Bool} {target v : VertexId} {visited : List VertexId}
variable {l : Link} {rest links : List Link}

theorem Walk.cons_iff : g.Walk follow v (l :: rest) ↔
    l ∈ g.outgoing v ∧ follow l.edge = true ∧ g.Walk follow l.target rest := by
  constructor
  · rintro (_ | ⟨hl, hfollow, hrest⟩)
    exact ⟨hl, hfollow, hrest⟩
  · rintro ⟨hl, hfollow, hrest⟩
    exact Walk.cons hl hfollow hrest

/-- Every link of a walk is one of the store that is accepted. -/
theorem Walk.of_mem (h : g.Walk follow v links) (hl : l ∈ links) :
    l ∈ g.links ∧ follow l.edge = true := by
  induction h with
  | nil v => cases hl
  | cons hfirst hfollow _ ih =>
      rcases List.mem_cons.mp hl with rfl | hl
      · exact ⟨List.mem_of_mem_filter hfirst, hfollow⟩
      · exact ih hl

theorem Walk.mem_links (h : g.Walk follow v links) : ∀ l ∈ links, l ∈ g.links :=
  fun _ hl => (h.of_mem hl).1

theorem Walk.source_of_head? (h : g.Walk follow v links) (hl : l ∈ links.head?) :
    l.source = v := by
  cases h with
  | nil => cases hl
  | cons hfirst _ _ =>
      obtain rfl := Option.some.inj hl
      exact beq_iff_eq.mp (List.mem_filter.mp hfirst).2

/-- Each link of a walk leaves the vertex that the one before it enters. -/
theorem Walk.isChain (h : g.Walk follow v links) :
    links.IsChain fun l m => m.source = l.target := by
  induction h with
  | nil => exact List.isChain_nil
  | cons _ _ hrest ih => exact List.isChain_cons.mpr ⟨fun m hm => hrest.source_of_head? hm, ih⟩

/-- One step of the search, without the proof that it ends. -/
theorem extensions_eq (g : Store) (follow : Edge → Bool) (target : VertexId)
    (visited : List VertexId) (v : VertexId) :
    g.extensions follow target visited v = (g.outgoing v).flatMap fun l =>
      if follow l.edge = true ∧ visited.contains l.target = false then
        if l.target = target then [[l]]
        else (g.extensions follow target (l.target :: visited) l.target).map (l :: ·)
      else [] := by
  rw [extensions]
  conv_rhs => rw [← List.attach_map_subtype_val (g.outgoing v), List.flatMap_map]
  simp only [dite_eq_ite]

theorem nil_notMem_extensions : [] ∉ g.extensions follow target visited v := by
  rw [extensions_eq, List.mem_flatMap]
  rintro ⟨l, -, hmem⟩
  split at hmem
  · split at hmem <;> simp at hmem
  · cases hmem

theorem cons_mem_extensions_iff :
    l :: rest ∈ g.extensions follow target visited v ↔
      l ∈ g.outgoing v ∧ follow l.edge = true ∧ l.target ∉ visited ∧
        (l.target = target ∧ rest = [] ∨
          l.target ≠ target ∧ rest ∈ g.extensions follow target (l.target :: visited) l.target) := by
  rw [extensions_eq, List.mem_flatMap]
  constructor
  · rintro ⟨l', hl', hmem⟩
    split at hmem
    · next hnew =>
      have hvisited : l'.target ∉ visited := by simpa using hnew.2
      split at hmem
      · next htarget =>
        obtain ⟨rfl, rfl⟩ := List.cons.inj (List.mem_singleton.mp hmem)
        exact ⟨hl', hnew.1, hvisited, Or.inl ⟨htarget, rfl⟩⟩
      · next htarget =>
        obtain ⟨rest', hrest, heq⟩ := List.mem_map.mp hmem
        obtain ⟨rfl, rfl⟩ := List.cons.inj heq
        exact ⟨hl', hnew.1, hvisited, Or.inr ⟨htarget, hrest⟩⟩
    · cases hmem
  · rintro ⟨hl, hfollow, hnew, hcase⟩
    refine ⟨l, hl, ?_⟩
    rw [if_pos ⟨hfollow, by simpa using hnew⟩]
    rcases hcase with ⟨htarget, rfl⟩ | ⟨htarget, hrest⟩
    · rw [if_pos htarget]
      exact List.mem_singleton_self _
    · rw [if_neg htarget]
      exact List.mem_map_of_mem hrest

/-- A longer walk extends what has been visited by its first vertex. -/
theorem extends_cons_iff (hrest : rest ≠ []) :
    g.Extends follow target visited v (l :: rest) ↔
      l ∈ g.outgoing v ∧ follow l.edge = true ∧ l.target ∉ visited ∧ l.target ≠ target ∧
        g.Extends follow target (l.target :: visited) l.target rest := by
  have hlast : ((l :: rest).map Link.target).getLast? = (rest.map Link.target).getLast? := by
    rw [List.map_cons, List.getLast?_cons_of_ne_nil (by simpa using hrest)]
  constructor
  · rintro ⟨hwalk, hnew, hsimple, hend⟩
    obtain ⟨hl, hfollow, hwalk⟩ := Walk.cons_iff.mp hwalk
    rw [hlast] at hend
    rw [List.map_cons, List.nodup_cons] at hsimple
    refine ⟨hl, hfollow, hnew l List.mem_cons_self, ?_, hwalk, fun m hm => ?_, hsimple.2, hend⟩
    · exact fun heq => hsimple.1 (heq ▸ List.mem_of_getLast? hend)
    · rw [List.mem_cons, not_or]
      exact ⟨fun heq => hsimple.1 (heq ▸ List.mem_map_of_mem hm),
        hnew m (List.mem_cons_of_mem _ hm)⟩
  · rintro ⟨hl, hfollow, hvisited, -, hwalk, hnew, hsimple, hend⟩
    refine ⟨Walk.cons hl hfollow hwalk, fun m hm => ?_, ?_, hlast.trans hend⟩
    · rcases List.mem_cons.mp hm with rfl | hm
      · exact hvisited
      · exact fun hmem => hnew m hm (List.mem_cons_of_mem _ hmem)
    · rw [List.map_cons, List.nodup_cons]
      refine ⟨fun hmem => ?_, hsimple⟩
      obtain ⟨m, hm, heq⟩ := List.mem_map.mp hmem
      exact hnew m hm (heq ▸ List.mem_cons_self)

theorem extends_singleton_iff :
    g.Extends follow target visited v [l] ↔
      l ∈ g.outgoing v ∧ follow l.edge = true ∧ l.target ∉ visited ∧ l.target = target := by
  constructor
  · rintro ⟨hwalk, hnew, -, hend⟩
    obtain ⟨hl, hfollow, -⟩ := Walk.cons_iff.mp hwalk
    exact ⟨hl, hfollow, hnew l List.mem_cons_self, Option.some.inj hend⟩
  · rintro ⟨hl, hfollow, hnew, rfl⟩
    exact ⟨Walk.cons hl hfollow (Walk.nil _), by simpa using hnew, by simp, rfl⟩

/-- The search lists the walks that extend what has been visited to the target. -/
theorem mem_extensions_iff :
    links ∈ g.extensions follow target visited v ↔
      g.Extends follow target visited v links := by
  -- The induction is on the walk; what has been visited grows along it.
  induction links generalizing visited v with
  | nil => exact iff_of_false nil_notMem_extensions fun h => by cases h.last
  | cons l rest ih =>
      rw [cons_mem_extensions_iff, ih]
      by_cases hrest : rest = []
      · subst hrest
        have hnil : ¬ g.Extends follow target (l.target :: visited) l.target [] :=
          fun h => by cases h.last
        rw [extends_singleton_iff]
        simp only [hnil, and_false, or_false, and_true]
      · rw [extends_cons_iff hrest]
        simp only [hrest, and_false, false_or]

/-- The search lists no walk twice. -/
theorem nodup_extensions (h : g.links.Nodup) (visited : List VertexId) (v : VertexId) :
    (g.extensions follow target visited v).Nodup := by
  rw [extensions_eq]
  refine List.nodup_flatMap.mpr ⟨fun l hl => ?_, ?_⟩
  · split
    · next hnew =>
      split
      · exact List.nodup_singleton _
      · have hfewer := g.unvisited_cons_length_lt visited l (List.mem_of_mem_filter hl) hnew.2
        exact (nodup_extensions h (l.target :: visited) l.target).map
          (List.cons_injective)
    · exact List.nodup_nil
  · -- Walks from different links differ in their first link.
    refine (h.filter _).imp fun {l l'} hne => ?_
    have hfirst {l : Link} {links : List Link} (hmem : links ∈
        if follow l.edge = true ∧ visited.contains l.target = false then
          if l.target = target then [[l]]
          else (g.extensions follow target (l.target :: visited) l.target).map (l :: ·)
        else []) : links.head? = some l := by
      split at hmem
      · split at hmem
        · rw [List.mem_singleton.mp hmem]
          rfl
        · obtain ⟨rest, -, rfl⟩ := List.mem_map.mp hmem
          rfl
      · cases hmem
    exact fun links hmem hmem' => hne (Option.some.inj ((hfirst hmem).symm.trans (hfirst hmem')))
termination_by (g.unvisited visited).length

end Walks

end Store

end SchemaGraph

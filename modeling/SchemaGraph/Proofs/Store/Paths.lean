import SchemaGraph.Proofs.Store.Operations
import SchemaGraph.Proofs.Store.Walks

/-!
# The paths of a store

What a path is, said on its vertices and edge numbers alone, and the proof that the
search lists exactly the paths that there are (`reachable_enumerates`).

* `Store.Joins` reads two lists side by side: each edge is live and leads from one
  vertex to the next.
* `Store.IsPath` asks further for the ends, and that no vertex repeats.  From a vertex
  to itself only a single loop counts, although it comes back to where it began.
* `Store.Enumerates` says that every such path is listed, once, and nothing else, and
  that the field paths are those of all paths that follow field steps only.

Walks are lists of edges and carry no vertices; `joins_iff` is the step between the
two.  Nothing is assumed of the store but that operations lead to it: there may be
cycles, loops and parallel edges.
-/

namespace SchemaGraph

namespace Store

/-- Edges by their numbers, each leading from a vertex of the list to the next one. -/
inductive Joins (g : Store) : List VertexId → List EdgeId → Prop where
  | last (v : VertexId) : g.Joins [v] []
  | step {v w : VertexId} {vs : List VertexId} {id : EdgeId} {ids : List EdgeId} {edge : Edge}
      (hlink : g.link? id = some ⟨id, v, w, edge⟩) (hrest : g.Joins (w :: vs) ids) :
      g.Joins (v :: w :: vs) (id :: ids)

/-- A path between two different vertices that visits no vertex twice, or a loop from
a vertex to itself. -/
structure IsPath (g : Store) (source target : VertexId) (p : Path) : Prop where
  joins : g.Joins p.vertices p.links
  first : p.source? = some source
  last : p.target? = some target
  simple : if source = target then p.vertices = [source, source] else p.vertices.Nodup

/-- Whether a path follows field steps only. -/
def followsFields (g : Store) (p : Path) : Bool :=
  p.links.all fun id => (g.link? id).any fun l => l.edge.kind == .field

/-- The paths listed between two vertices are those that there are. -/
structure Enumerates (g : Store) (source target : VertexId) : Prop where
  mem : ∀ p, p ∈ g.paths source target ↔ g.IsPath source target p
  nodup : (g.paths source target).Nodup
  length : ∀ p ∈ g.paths source target, p.vertices.length = p.links.length + 1
  absent : g.element? source = none ∨ g.element? target = none → g.paths source target = []
  fields : g.fieldPaths source target = (g.paths source target).filter g.followsFields

section Paths

variable {g : Store} {follow : Edge → Bool} {source target v : VertexId}
variable {visited vs : List VertexId} {ids : List EdgeId} {l : Link} {links : List Link} {p : Path}

/-! ## Paths and walks -/

theorem Joins.length (h : g.Joins vs ids) : vs.length = ids.length + 1 := by
  induction h with
  | last v => rfl
  | step _ _ ih => simp only [List.length_cons] at ih ⊢; omega

theorem Walk.joins (hg : g.Valid) (h : g.Walk follow v links) :
    g.Joins (v :: links.map Link.target) (links.map Link.id) := by
  induction h with
  | nil v => exact Joins.last v
  | @cons v l rest hl _ _ ih =>
      obtain ⟨hmem, hsource⟩ := List.mem_filter.mp hl
      have hfound : g.link? l.id = some ⟨l.id, v, l.target, l.edge⟩ := by
        rw [hg.link?_eq_some_iff, ← beq_iff_eq.mp hsource]
        exact ⟨hmem, rfl⟩
      exact Joins.step hfound ih

/-- Joined vertices and edges are those of one walk. -/
theorem joins_iff (hg : g.Valid) :
    g.Joins vs ids ↔ ∃ v links, g.Walk (fun _ => true) v links ∧
      vs = v :: links.map Link.target ∧ ids = links.map Link.id := by
  constructor
  · intro h
    induction h with
    | last v => exact ⟨v, [], Walk.nil v, rfl, rfl⟩
    | @step v w vs id ids edge hlink _ ih =>
        obtain ⟨w', links, hwalk, hvertices, rfl⟩ := ih
        obtain ⟨rfl, rfl⟩ := List.cons.inj hvertices
        have hl := (hg.link?_eq_some_iff.mp hlink).1
        refine ⟨v, ⟨id, v, w, edge⟩ :: links, ?_, rfl, rfl⟩
        exact Walk.cons (List.mem_filter.mpr ⟨hl, beq_self_eq_true v⟩) rfl hwalk
  · rintro ⟨v, links, hwalk, rfl, rfl⟩
    exact hwalk.joins hg

/-- Between different vertices the paths are the walks that the search extends. -/
theorem isPath_iff_of_ne (hg : g.Valid) (hne : source ≠ target) :
    g.IsPath source target p ↔ ∃ links,
      g.Extends (fun _ => true) target [source] source links ∧ Path.ofLinks source links = p := by
  constructor
  · rintro ⟨hjoins, hfirst, htarget, hsimple⟩
    obtain ⟨vertices, ids⟩ := p
    obtain ⟨v, links, hwalk, rfl, rfl⟩ := (joins_iff hg).mp hjoins
    obtain rfl : v = source := Option.some.inj hfirst
    rw [if_neg hne] at hsimple
    obtain ⟨hnew, hnodup⟩ := List.nodup_cons.mp hsimple
    refine ⟨links, ⟨hwalk, ?_, hnodup, ?_⟩, rfl⟩
    · intro l hl hvisited
      rw [List.mem_singleton] at hvisited
      exact hnew (hvisited ▸ List.mem_map_of_mem hl)
    · -- The path does not end where it begins, so it has an edge.
      by_cases hlinks : links.map Link.target = []
      · rw [Path.target?, hlinks] at htarget
        exact absurd (Option.some.inj htarget) hne
      · rwa [Path.target?, List.getLast?_cons_of_ne_nil hlinks] at htarget
  · rintro ⟨links, ⟨hwalk, hnew, hnodup, hlast⟩, rfl⟩
    have hlinks : links.map Link.target ≠ [] := by
      intro hnil
      rw [hnil] at hlast
      cases hlast
    refine ⟨hwalk.joins hg, rfl, ?_, ?_⟩
    · show (source :: links.map Link.target).getLast? = some target
      rw [List.getLast?_cons_of_ne_nil hlinks, hlast]
    · rw [if_neg hne]
      refine List.nodup_cons.mpr ⟨?_, hnodup⟩
      intro hmem
      obtain ⟨l, hl, htarget⟩ := List.mem_map.mp hmem
      exact hnew l hl (by simp [htarget])

/-- From a vertex to itself the paths are its loops. -/
theorem isPath_self_iff (hg : g.Valid) :
    g.IsPath v v p ↔ ∃ l ∈ g.links, l.source = v ∧ l.target = v ∧ Path.ofLinks v [l] = p := by
  constructor
  · rintro ⟨hjoins, -, -, hsimple⟩
    obtain ⟨vertices, ids⟩ := p
    rw [if_pos rfl] at hsimple
    obtain rfl : vertices = [v, v] := hsimple
    cases hjoins with
    | step hlink hrest =>
        cases hrest with
        | last => exact ⟨_, (hg.link?_eq_some_iff.mp hlink).1, rfl, rfl, rfl⟩
  · rintro ⟨⟨id, source, target, edge⟩, hl, hsource, htarget, rfl⟩
    dsimp only at hsource htarget
    subst hsource htarget
    refine ⟨?_, rfl, rfl, ?_⟩
    · exact Joins.step (hg.link?_eq_some_iff.mpr ⟨hl, rfl⟩) (Joins.last _)
    · rw [if_pos rfl]
      rfl

/-- Both ends of a path are there. -/
theorem IsPath.ends (hg : g.Valid) (h : g.IsPath source target p) :
    source ∈ g.ids ∧ target ∈ g.ids := by
  by_cases hsame : source = target
  · subst hsame
    obtain ⟨l, hl, hsource, htarget, -⟩ := (isPath_self_iff hg).mp h
    obtain ⟨hs, ht⟩ := hg.ends l hl
    rw [hsource] at hs
    exact ⟨hs, hs⟩
  · obtain ⟨links, ⟨hwalk, -, -, hlast⟩, -⟩ := (isPath_iff_of_ne hg hsame).mp h
    constructor
    · cases hwalk with
      | nil => cases hlast
      | cons hl _ _ =>
          obtain ⟨hmem, hsource⟩ := List.mem_filter.mp hl
          rw [← beq_iff_eq.mp hsource]
          exact (hg.ends _ hmem).1
    · obtain ⟨l, hl, htarget⟩ := List.mem_map.mp (List.mem_of_getLast? hlast)
      rw [← htarget]
      exact (hg.ends l (hwalk.of_mem hl).1).2

/-! ## What the search lists -/

/-- The search between two vertices that are there. -/
theorem pathsBy_of_mem (hg : g.Valid) (hsource : source ∈ g.ids) (htarget : target ∈ g.ids) :
    g.pathsBy follow source target =
      if source = target then
        ((g.outgoing source).filter fun l => l.target == source && follow l.edge).map fun l =>
          Path.ofLinks source [l]
      else (g.extensions follow target [source] source).map (Path.ofLinks source) := by
  obtain ⟨s, hs⟩ := mem_ids_iff.mp hsource
  obtain ⟨t, ht⟩ := mem_ids_iff.mp htarget
  unfold pathsBy
  rw [hg.element?_eq_some_iff.mpr hs, hg.element?_eq_some_iff.mpr ht]

theorem pathsBy_of_absent (h : g.element? source = none ∨ g.element? target = none) :
    g.pathsBy follow source target = [] := by
  unfold pathsBy
  rcases h with h | h
  · rw [h]
  · rw [h]
    cases g.element? source <;> rfl

/-- Without both ends there is nothing to search. -/
theorem pathsBy_of_notMem (hg : g.Valid) (hends : ¬ (source ∈ g.ids ∧ target ∈ g.ids)) :
    g.pathsBy follow source target = [] := by
  apply pathsBy_of_absent
  rw [hg.element?_eq_none_iff, hg.element?_eq_none_iff]
  exact not_and_or.mp hends

theorem mem_paths_iff (hg : g.Valid) : p ∈ g.paths source target ↔ g.IsPath source target p := by
  by_cases hends : source ∈ g.ids ∧ target ∈ g.ids
  · rw [paths, pathsBy_of_mem hg hends.1 hends.2]
    by_cases hsame : source = target
    · subst hsame
      rw [isPath_self_iff hg, if_pos rfl]
      simp [outgoing, and_assoc, and_left_comm]
    · rw [isPath_iff_of_ne hg hsame, if_neg hsame]
      simp [mem_extensions_iff]
  · rw [paths, pathsBy_of_notMem hg hends]
    simp only [List.not_mem_nil, false_iff]
    exact fun h => hends (h.ends hg)

/-- A path is a walk that ends at the target. -/
theorem exists_walk_of_mem_paths (hg : g.Valid) (h : p ∈ g.paths source target) :
    ∃ links, g.Walk (fun _ => true) source links ∧ (links.map Link.target).getLast? = some target ∧
      Path.ofLinks source links = p := by
  have hpath := (mem_paths_iff hg).mp h
  by_cases hsame : source = target
  · subst hsame
    obtain ⟨l, hl, hsource, htarget, rfl⟩ := (isPath_self_iff hg).mp hpath
    have hout : l ∈ g.outgoing source := List.mem_filter.mpr ⟨hl, beq_iff_eq.mpr hsource⟩
    exact ⟨[l], .cons hout rfl (.nil _), congrArg some htarget, rfl⟩
  · obtain ⟨links, hextends, rfl⟩ := (isPath_iff_of_ne hg hsame).mp hpath
    exact ⟨links, hextends.walk, hextends.last, rfl⟩

/-- Edges of the store are found again by their numbers. -/
theorem filterMap_link? (hg : g.Valid) (hl : ∀ l ∈ links, l ∈ g.links) :
    (links.map Link.id).filterMap g.link? = links := by
  rw [List.filterMap_map]
  refine (List.filterMap_congr fun l hmem => ?_).trans List.filterMap_some
  exact hg.link?_eq_some_iff.mpr ⟨hl l hmem, rfl⟩

/-- Two lists of edges of the store with the same numbers are the same. -/
theorem eq_of_ofLinks (hg : g.Valid) {links' : List Link} (hl : ∀ l ∈ links, l ∈ g.links)
    (hl' : ∀ l ∈ links', l ∈ g.links) (hsame : Path.ofLinks v links = Path.ofLinks v links') :
    links = links' := by
  have hids : links.map Link.id = links'.map Link.id := congrArg Path.links hsame
  rw [← filterMap_link? hg hl, ← filterMap_link? hg hl', hids]

theorem nodup_paths (hg : g.Valid) : (g.paths source target).Nodup := by
  have hlinks : g.links.Nodup := List.Nodup.of_map _ hg.edgeIds.nodup
  by_cases hends : source ∈ g.ids ∧ target ∈ g.ids
  · rw [paths, pathsBy_of_mem hg hends.1 hends.2]
    split
    · refine List.Nodup.map_on ?_ ((hlinks.filter _).filter _)
      intro l hl l' hl' hsame
      have hmem {l : Link} (hl : l ∈ (g.outgoing source).filter fun l =>
          l.target == source && true) : ∀ m ∈ [l], m ∈ g.links := by
        simp [List.mem_of_mem_filter (List.mem_of_mem_filter hl)]
      exact List.singleton_inj.mp (eq_of_ofLinks hg (hmem hl) (hmem hl') hsame)
    · refine List.Nodup.map_on ?_ (nodup_extensions hlinks _ _)
      intro links hmem links' hmem' hsame
      rw [mem_extensions_iff] at hmem hmem'
      exact eq_of_ofLinks hg (fun l hl => (hmem.walk.of_mem hl).1)
        (fun l hl => (hmem'.walk.of_mem hl).1) hsame
  · rw [paths, pathsBy_of_notMem hg hends]
    exact List.nodup_nil

/-! ## Following some of the edges -/

/-- A search that follows some edges lists, in the same order, what a search that
follows all of them lists along these. -/
theorem extensions_eq_filter (g : Store) (follow : Edge → Bool) (target : VertexId)
    (visited : List VertexId) (v : VertexId) :
    g.extensions follow target visited v =
      (g.extensions (fun _ => true) target visited v).filter fun links =>
        links.all fun l => follow l.edge := by
  rw [extensions_eq, extensions_eq g (fun _ => true), List.filter_flatMap]
  refine List.flatMap_congr fun l hl => ?_
  by_cases hnew : visited.contains l.target = false
  · have hall : true = true ∧ visited.contains l.target = false := ⟨rfl, hnew⟩
    by_cases hfollow : follow l.edge = true
    · rw [if_pos ⟨hfollow, hnew⟩, if_pos hall]
      by_cases htarget : l.target = target
      · simp [htarget, hfollow]
      · rw [if_neg htarget, if_neg htarget]
        have hfewer := g.unvisited_cons_length_lt visited l (List.mem_of_mem_filter hl) hnew
        rw [extensions_eq_filter g follow target (l.target :: visited) l.target, List.filter_map]
        simp [Function.comp_def, hfollow]
    · rw [if_neg fun h => hfollow h.1, if_pos hall]
      -- Whatever begins with an edge that is not followed is left out.
      symm
      rw [List.filter_eq_nil_iff]
      intro links hlinks
      by_cases htarget : l.target = target
      · rw [if_pos htarget, List.mem_singleton] at hlinks
        simp [hlinks, hfollow]
      · rw [if_neg htarget, List.mem_map] at hlinks
        obtain ⟨rest, -, rfl⟩ := hlinks
        simp [hfollow]
  · rw [if_neg fun h => hnew h.2, if_neg fun h => hnew h.2]
    rfl
termination_by (g.unvisited visited).length

/-- Which edges a path follows can be told from their numbers. -/
theorem followsFields_ofLinks (hg : g.Valid) (hl : ∀ l ∈ links, l ∈ g.links) :
    g.followsFields (Path.ofLinks v links) = links.all fun l => l.edge.kind == .field := by
  unfold followsFields
  show (links.map Link.id).all _ = _
  rw [List.all_map, Bool.eq_iff_iff, List.all_eq_true, List.all_eq_true]
  apply forall₂_congr
  intro l hmem
  rw [Function.comp_apply, hg.link?_eq_some_iff.mpr ⟨hl l hmem, rfl⟩, Option.any_some]

theorem fieldPaths_eq (hg : g.Valid) :
    g.fieldPaths source target = (g.paths source target).filter g.followsFields := by
  by_cases hends : source ∈ g.ids ∧ target ∈ g.ids
  · rw [fieldPaths, paths, pathsBy_of_mem hg hends.1 hends.2, pathsBy_of_mem hg hends.1 hends.2]
    split
    · rw [List.filter_map, List.filter_filter]
      congr 1
      refine List.filter_congr fun l hl => ?_
      have hlinks : ∀ m ∈ [l], m ∈ g.links := by
        simp [List.mem_of_mem_filter hl]
      rw [Function.comp_apply, followsFields_ofLinks hg hlinks]
      simp [Bool.and_comm]
    · rw [extensions_eq_filter, List.filter_map]
      congr 1
      refine List.filter_congr fun links hmem => ?_
      rw [mem_extensions_iff] at hmem
      rw [Function.comp_apply, followsFields_ofLinks hg fun l hl => (hmem.walk.of_mem hl).1]
  · rw [fieldPaths, paths, pathsBy_of_notMem hg hends, pathsBy_of_notMem hg hends]
    rfl

end Paths

/-- Between any two numbers, a store that operations lead to lists every path once
and nothing else. -/
theorem reachable_enumerates {g : Store} (h : g.Reachable) (source target : VertexId) :
    g.Enumerates source target where
  mem _ := mem_paths_iff h.valid
  nodup := nodup_paths h.valid
  length _ hp := ((mem_paths_iff h.valid).mp hp).joins.length
  absent := pathsBy_of_absent
  fields := fieldPaths_eq h.valid

/-- Three messages: two edges from the first to the second, one back, a loop at the
second and an edge on to the third. -/
theorem reachable_enumerates_cyclic :
    ∃ g : Store, g.Reachable ∧ g.Enumerates 0 2 ∧ g.Enumerates 1 1 ∧
      g.paths 0 2 = [⟨[0, 1, 2], [1, 4]⟩, ⟨[0, 1, 2], [0, 4]⟩] ∧
      g.fieldPaths 0 2 = [⟨[0, 1, 2], [0, 4]⟩] ∧ g.paths 1 1 = [⟨[1, 1], [3]⟩] := by
  have hfirst := Reachable.empty.step (.addElement (bareMessage "First")) trivial
  have hsecond := hfirst.step (.addElement (bareMessage "Second")) trivial
  have hthird := hsecond.step (.addElement (bareMessage "Third")) trivial
  have hstep := hthird.step (.addLink 0 1 ⟨.field, "[type=Second]", true⟩)
    ⟨by decide +kernel, by decide +kernel⟩
  have hparallel := hstep.step (.addLink 0 1 ⟨.typeRef, "[type=Second]", true⟩)
    ⟨by decide +kernel, by decide +kernel⟩
  have hback := hparallel.step (.addLink 1 0 ⟨.field, "[type=First]", true⟩)
    ⟨by decide +kernel, by decide +kernel⟩
  have hloop := hback.step (.addLink 1 1 ⟨.typeRef, "[type=Second]", true⟩)
    ⟨by decide +kernel, by decide +kernel⟩
  have hon := hloop.step (.addLink 1 2 ⟨.field, "[type=Third]", true⟩)
    ⟨by decide +kernel, by decide +kernel⟩
  exact ⟨_, hon, reachable_enumerates hon 0 2, reachable_enumerates hon 1 1, by decide +kernel,
    by decide +kernel, by decide +kernel⟩

end Store

end SchemaGraph

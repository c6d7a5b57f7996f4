import SchemaGraph.Graph.Wrapper
import SchemaGraph.Proofs.Store.Requests

/-!
# What flattening asks for

The plan that flattens wrapper messages as a list of single requests to a patch,
and what the list asks for.

* `Store.flatteningRequests` are the requests of a store, and
  `planFlattening_eq` says that the plan makes them;
* `Store.Replaces` says which field is replaced on behalf of which primitive, and
  the requests are said in its terms.

What the patch does to the store is not described here.
-/

namespace SchemaGraph

namespace Store

/-! ## The requests of flattening -/

/-- What is asked for to lead one edge into a replaced field to its replacement. -/
def redirectRequests (g : Store) (primitive : Element) (key : ElementKey) (l : Link) :
    List Request :=
  .removeLink l.id :: ((g.element? l.source).map fun source =>
    Request.addLink ⟨source.key, key, ⟨.field, primitive.pathType, false⟩⟩).toList

/-- What is asked for to replace a field by one typed as a primitive. -/
def originRequests (g : Store) (primitive : Element) (origin : VertexId) : List Request :=
  match g.element? origin with
  | none => []
  | some e =>
    .removeElement origin ::
      ((g.incoming origin).flatMap (g.redirectRequests primitive (e.withPrimitive primitive).key) ++
        [.addElement (e.withPrimitive primitive)])

/-- What is asked for on behalf of a primitive. -/
def primitiveRequests (g : Store) (primitive : VertexId) : List Request :=
  match g.element? primitive with
  | none => []
  | some e =>
    (g.incoming primitive).map (fun l => .removeLink l.id) ++
      (g.originsOf primitive).flatMap (g.originRequests e)

/-- What is asked for to flatten the wrapper messages. -/
def flatteningRequests (g : Store) : List Request :=
  (g.elements.filter fun entry => isWrapped entry.2).map (fun entry => .removeElement entry.1) ++
    g.primitives.flatMap g.primitiveRequests

/-- Steps that each make some requests make all of them in turn. -/
theorem foldl_eq_requestAll {α : Type} {step : Patch → α → Patch} {requests : α → List Request}
    (hstep : ∀ p a, step p a = p.requestAll (requests a)) (as : List α) (p : Patch) :
    as.foldl step p = p.requestAll (as.flatMap requests) := by
  induction as generalizing p with
  | nil => rfl
  | cons a rest ih => rw [List.foldl_cons, List.flatMap_cons, hstep, ih, Patch.requestAll_append]

variable {g : Store}

theorem planOrigin_eq (g : Store) (primitive : Element) (p : Patch) (origin : VertexId) :
    g.planOrigin primitive p origin = p.requestAll (g.originRequests primitive origin) := by
  rw [planOrigin, originRequests]
  cases g.element? origin with
  | none => rfl
  | some e =>
      have hredirect (p : Patch) (l : Link) :
          (match g.element? l.source with
            | none => p.removeLink l.id
            | some source => (p.removeLink l.id).addLink ⟨source.key,
                (e.withPrimitive primitive).key, ⟨.field, primitive.pathType, false⟩⟩) =
            p.requestAll (g.redirectRequests primitive (e.withPrimitive primitive).key l) := by
        rw [redirectRequests]
        cases g.element? l.source with
        | none => rfl
        | some source => rfl
      show Patch.addElement _ _ = Patch.requestAll (p.removeElement origin) (_ ++ [_])
      rw [Patch.requestAll_append, ← foldl_eq_requestAll hredirect]
      rfl

theorem planPrimitive_eq (g : Store) (p : Patch) (primitive : VertexId) :
    g.planPrimitive p primitive = p.requestAll (g.primitiveRequests primitive) := by
  rw [planPrimitive, primitiveRequests]
  cases g.element? primitive with
  | none => rfl
  | some e =>
      have hcut : (g.incoming primitive).foldl (fun p l => p.removeLink l.id) p =
          p.requestAll ((g.incoming primitive).map fun l => .removeLink l.id) := by
        rw [Patch.requestAll, List.foldl_map]
        rfl
      dsimp only
      rw [hcut, foldl_eq_requestAll (g.planOrigin_eq e), Patch.requestAll_append]

/-- The plan of flattening makes the requests of flattening. -/
theorem planFlattening_eq (g : Store) :
    g.planFlattening = Patch.requestAll {} g.flatteningRequests := by
  have hremovals : g.planRemovals = Patch.requestAll {}
      ((g.elements.filter fun entry => isWrapped entry.2).map fun entry =>
        .removeElement entry.1) := by
    rw [planRemovals, Patch.requestAll, List.foldl_map]
    rfl
  rw [planFlattening, hremovals, foldl_eq_requestAll g.planPrimitive_eq, ← Patch.requestAll_append]
  rfl

/-- The plan of flattening answers the requests of flattening. -/
theorem answers_planFlattening (g : Store) : g.planFlattening.Answers g.flatteningRequests := by
  rw [planFlattening_eq]
  exact Patch.answers_requestAll _

/-! ## What is asked for -/

/-- The field `e` at `origin` is to be typed as the primitive `p`. -/
def Replaces (g : Store) (origin : VertexId) (e p : Element) : Prop :=
  ∃ primitive ∈ g.primitives, g.element? primitive = some p ∧
    origin ∈ g.originsOf primitive ∧ g.element? origin = some e

variable {id : Nat} {l : PendingLink} {r : Request}

theorem mem_redirectRequests_iff {primitive : Element} {key : ElementKey} {link : Link} :
    r ∈ g.redirectRequests primitive key link ↔
      r = .removeLink link.id ∨ ∃ source, g.element? link.source = some source ∧
        r = .addLink ⟨source.key, key, ⟨.field, primitive.pathType, false⟩⟩ := by
  rw [redirectRequests, List.mem_cons, Option.mem_toList, Option.map_eq_some_iff]
  simp only [eq_comm]

theorem mem_originRequests_iff {primitive : Element} {origin : VertexId} :
    r ∈ g.originRequests primitive origin ↔
      ∃ e, g.element? origin = some e ∧
        (r = .removeElement origin ∨ r = .addElement (e.withPrimitive primitive) ∨
          ∃ link ∈ g.incoming origin, r ∈ g.redirectRequests primitive e.key link) := by
  rw [originRequests]
  cases g.element? origin with
  | none => simp
  | some e =>
      simp only [Option.some.injEq, exists_eq_left', List.mem_cons, List.mem_append,
        List.mem_flatMap, List.not_mem_nil, or_false, Element.key_withPrimitive]
      exact or_congr_right or_comm

theorem mem_primitiveRequests_iff {primitive : VertexId} :
    r ∈ g.primitiveRequests primitive ↔
      ∃ p, g.element? primitive = some p ∧
        ((∃ link ∈ g.incoming primitive, r = .removeLink link.id) ∨
          ∃ origin ∈ g.originsOf primitive, r ∈ g.originRequests p origin) := by
  rw [primitiveRequests]
  cases g.element? primitive with
  | none => simp
  | some p =>
      simp only [Option.some.injEq, exists_eq_left', List.mem_append, List.mem_map,
        List.mem_flatMap, eq_comm]

/-- Every request removes a wrapped element, cuts off a primitive, or replaces a
field. -/
theorem mem_flatteningRequests_iff :
    r ∈ g.flatteningRequests ↔
      (∃ entry ∈ g.elements, isWrapped entry.2 = true ∧ r = .removeElement entry.1) ∨
      (∃ primitive ∈ g.primitives, (g.element? primitive).isSome ∧
        ∃ link ∈ g.incoming primitive, r = .removeLink link.id) ∨
      ∃ origin e p, g.Replaces origin e p ∧
        (r = .removeElement origin ∨ r = .addElement (e.withPrimitive p) ∨
          ∃ link ∈ g.incoming origin, r ∈ g.redirectRequests p e.key link) := by
  have hremovals : r ∈ (g.elements.filter fun entry => isWrapped entry.2).map
      (fun entry => Request.removeElement entry.1) ↔
        ∃ entry ∈ g.elements, isWrapped entry.2 = true ∧ r = .removeElement entry.1 := by
    simp only [List.mem_map, List.mem_filter, and_assoc, eq_comm]
  rw [flatteningRequests, List.mem_append, hremovals, List.mem_flatMap]
  refine or_congr_right ?_
  simp only [mem_primitiveRequests_iff, mem_originRequests_iff]
  constructor
  · rintro ⟨primitive, hprimitive, p, hp, ⟨link, hlink, rfl⟩ | ⟨origin, horigin, e, he, hr⟩⟩
    · exact Or.inl ⟨primitive, hprimitive, Option.isSome_iff_exists.mpr ⟨p, hp⟩, link, hlink, rfl⟩
    · exact Or.inr ⟨origin, e, p, ⟨primitive, hprimitive, hp, horigin, he⟩, hr⟩
  · rintro (⟨primitive, hprimitive, hsome, link, hlink, rfl⟩ |
      ⟨origin, e, p, ⟨primitive, hprimitive, hp, horigin, he⟩, hr⟩)
    · obtain ⟨p, hp⟩ := Option.isSome_iff_exists.mp hsome
      exact ⟨primitive, hprimitive, p, hp, Or.inl ⟨link, hlink, rfl⟩⟩
    · exact ⟨primitive, hprimitive, p, hp, Or.inr ⟨origin, horigin, e, he, hr⟩⟩

end Store

end SchemaGraph

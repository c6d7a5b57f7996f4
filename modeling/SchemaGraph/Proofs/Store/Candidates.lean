import SchemaGraph.Graph.Root
import SchemaGraph.Proofs.Store.Valid

/-!
# Candidates for the root

What makes a vertex a candidate (`mem_rootCandidates_iff`), and what comes of one
candidate and of several.  A root that is detected is a message outside other messages
of the file that it is detected in (`Valid.root_of_detectRoot`).
-/

namespace SchemaGraph.Store

variable {g : Store} {file name : String} {id : VertexId} {e : Element}

theorem mem_rootCandidates_iff :
    (id, name) ∈ g.rootCandidates file ↔ ∃ e, (id, e) ∈ g.elements ∧ e.kind = .message ∧
      e.parent = none ∧ e.file = file ∧ g.standsAlone id = true ∧ e.fullName = name := by
  rw [rootCandidates, Ordered.sort_eq_insertionSort, List.mem_insertionSort, List.mem_map]
  constructor
  · rintro ⟨⟨i, e⟩, hentry, heq⟩
    obtain ⟨rfl, rfl⟩ := Prod.mk.inj heq
    obtain ⟨hmem, htest⟩ := List.mem_filter.mp hentry
    simp only [Bool.and_eq_true, beq_iff_eq, Option.isNone_iff_eq_none] at htest
    obtain ⟨⟨⟨hkind, hparent⟩, hfile⟩, halone⟩ := htest
    exact ⟨e, hmem, hkind, hparent, hfile, halone, rfl⟩
  · rintro ⟨e, hmem, hkind, hparent, hfile, halone, rfl⟩
    refine ⟨(id, e), List.mem_filter.mpr ⟨hmem, ?_⟩, rfl⟩
    simp only [Bool.and_eq_true, beq_iff_eq, Option.isNone_iff_eq_none]
    exact ⟨⟨⟨hkind, hparent⟩, hfile⟩, halone⟩

/-- A root is detected if it is the only candidate. -/
theorem detectRoot_eq_ok_iff :
    g.detectRoot file = .ok id ↔ ∃ name, g.rootCandidates file = [(id, name)] := by
  unfold detectRoot
  constructor
  · intro hroot
    split at hroot
    · next found name hcandidates =>
      obtain rfl := Except.ok.inj hroot
      exact ⟨name, hcandidates⟩
    · cases hroot
    · cases hroot
  · rintro ⟨name, hcandidates⟩
    rw [hcandidates]

theorem detectRoot_of_several (h : 2 ≤ (g.rootCandidates file).length) :
    g.detectRoot file = .error (.candidates file ((g.rootCandidates file).map Prod.snd)) := by
  unfold detectRoot
  split
  · next hcandidates =>
    rw [hcandidates, List.length_singleton] at h
    omega
  · next hcandidates =>
    rw [hcandidates, List.length_nil] at h
    omega
  · rfl

theorem Valid.root_of_detectRoot (h : g.Valid) (hroot : g.detectRoot file = .ok id)
    (hmem : (id, e) ∈ g.elements) : e.kind = .message ∧ e.parent = none ∧ e.file = file := by
  obtain ⟨name, hcandidates⟩ := detectRoot_eq_ok_iff.mp hroot
  have hcandidate : (id, name) ∈ g.rootCandidates file := by
    rw [hcandidates]
    exact List.mem_singleton_self _
  obtain ⟨e', hmem', hkind, hparent, hfile, -⟩ := mem_rootCandidates_iff.mp hcandidate
  obtain rfl := h.eq_of_id hmem hmem'
  exact ⟨hkind, hparent, hfile⟩

end SchemaGraph.Store

import SchemaGraph.Text.Segment

/-!
# Segments and what they are cut from

A text is cut at a separator into pieces in one way only: at least one piece, none with the
separator in it, and the text again with a separator between neighbours (`Splits`).  So
`segments` may be taken for any such pieces (`splits_iff`), without a look at how it cuts.

Beside that, what the segments of two texts with a dot between them are, which is the
last one, and what is left of a text without a leading character (`dropLeading_eq_iff`).
-/

namespace SchemaGraph.Text

/-! ## Cutting -/

/-- A list without the separator is one piece. -/
theorem cut_of_notMem {α : Type} [DecidableEq α] {sep : α} {cs : List α} (hsep : sep ∉ cs) :
    cut sep cs = [cs] := by
  induction cs with
  | nil => rfl
  | cons c rest ih =>
      rw [List.mem_cons, not_or] at hsep
      rw [cut, if_neg (Ne.symm hsep.1), ih hsep.2]

/-- A separator ends a piece. -/
theorem cut_append_sep {α : Type} [DecidableEq α] (sep : α) (as bs : List α) :
    cut sep (as ++ sep :: bs) = cut sep as ++ cut sep bs := by
  induction as with
  | nil => simp [cut]
  | cons a rest ih =>
      rw [List.cons_append, cut, cut, ih]
      split
      · rfl
      · cases hcut : cut sep rest with
        | nil => exact absurd hcut (cut_ne_nil sep rest)
        | cons piece pieces => rfl

theorem segments_append (a b : String) :
    segments '.' (a ++ "." ++ b) = segments '.' a ++ segments '.' b := by
  have hlist : (a ++ "." ++ b).toList = a.toList ++ '.' :: b.toList := by
    simp [String.toList_append]
  rw [segments, hlist, cut_append_sep, List.map_append]
  rfl

theorem segments_of_notMem {s : String} (h : '.' ∉ s.toList) : segments '.' s = [s] := by
  rw [segments, cut_of_notMem h]
  simp

/-- The last segment of a name is what follows the last dot. -/
theorem lastSegment_append {scope name : String} (hname : '.' ∉ name.toList) :
    lastSegment '.' (scope ++ "." ++ name) = name := by
  rw [lastSegment, segments_append, segments_of_notMem hname]
  simp

theorem lastSegment_of_notMem {name : String} (hname : '.' ∉ name.toList) :
    lastSegment '.' name = name := by
  rw [lastSegment, segments_of_notMem hname]
  simp

theorem join_append_singleton {parts : List String} {name : String} (hparts : parts ≠ []) :
    join "." (parts ++ [name]) = join "." parts ++ "." ++ name := by
  rw [join, String.intercalate_append_of_ne_nil hparts (List.cons_ne_nil _ _),
    String.intercalate_singleton]
  rfl

theorem join_ne_empty {parts : List String} (hparts : parts ≠ [])
    (hnames : ∀ part ∈ parts, part ≠ "") : join "." parts ≠ "" := by
  obtain ⟨first, rest, rfl⟩ := List.exists_cons_of_ne_nil hparts
  have hfirst : first ≠ "" := hnames first List.mem_cons_self
  cases rest with
  | nil => simpa [join] using hfirst
  | cons part rest =>
      rw [join, String.intercalate_cons_cons]
      simp [hfirst]

/-! ## The pieces of a text -/

theorem notMem_of_mem_cut {α : Type} [DecidableEq α] {sep : α} {cs piece : List α}
    (h : piece ∈ cut sep cs) : sep ∉ piece := by
  induction cs generalizing piece with
  | nil =>
      rw [cut, List.mem_singleton] at h
      rw [h]
      exact List.not_mem_nil
  | cons c rest ih =>
      rw [cut] at h
      split at h
      · rcases List.mem_cons.mp h with rfl | h
        · exact List.not_mem_nil
        · exact ih h
      · next hc =>
        split at h
        · next hcut => exact absurd hcut (cut_ne_nil sep rest)
        · next first pieces hcut =>
          rw [hcut] at ih
          rcases List.mem_cons.mp h with rfl | h
          · rw [List.mem_cons, not_or]
            exact ⟨Ne.symm hc, ih List.mem_cons_self⟩
          · exact ih (List.mem_cons_of_mem _ h)

/-- Pieces of a list, none of which has the separator, are what it is cut into. -/
theorem cut_intercalate {α : Type} [DecidableEq α] {sep : α} {pieces : List (List α)}
    (hne : pieces ≠ []) (hwhole : ∀ piece ∈ pieces, sep ∉ piece) :
    cut sep ([sep].intercalate pieces) = pieces := by
  have hcut := List.splitOn_intercalate sep
    (fun piece (hpiece : piece ∈ cut sep ([sep].intercalate pieces)) => notMem_of_mem_cut hpiece)
    (cut_ne_nil sep _)
  rw [intercalate_cut, List.splitOn_intercalate sep hwhole hne] at hcut
  exact hcut.symm

/-- A text is what is left of another one if that is the text behind the character, or is
the text itself and does not start with the character. -/
theorem dropLeading_eq_iff {c : Char} {s rest : String} :
    dropLeading c s = rest ↔
      s.toList = c :: rest.toList ∨ s = rest ∧ rest.toList.head? ≠ some c := by
  rw [dropLeading]
  cases hs : s.toList with
  | nil =>
      have hhead : s.toList.head? ≠ some c := by simp [hs]
      constructor
      · rintro rfl
        exact Or.inr ⟨rfl, hhead⟩
      · rintro (h | ⟨rfl, -⟩)
        · cases h
        · rfl
  | cons first others =>
      by_cases hfirst : first = c
      · subst hfirst
        simp only [if_true, List.cons.injEq, true_and]
        constructor
        · rintro rfl
          exact Or.inl String.toList_ofList.symm
        · rintro (rfl | ⟨rfl, hhead⟩)
          · exact String.ofList_toList
          · exact absurd (by rw [hs]; rfl) hhead
      · simp only [if_neg hfirst, List.cons.injEq]
        constructor
        · rintro rfl
          refine Or.inr ⟨rfl, fun hhead => hfirst ?_⟩
          rw [hs] at hhead
          exact Option.some.inj hhead
        · exact fun h => (h.resolve_left fun h => hfirst h.1).1

/-- Pieces without the separator, at least one, that give the text when they are put
together again. -/
structure Splits (sep : Char) (s : String) (pieces : List String) : Prop where
  nonempty : pieces ≠ []
  joined : join (String.singleton sep) pieces = s
  whole : ∀ piece ∈ pieces, sep ∉ piece.toList

/-- The segments of a text are the only pieces that it splits into. -/
theorem splits_iff {sep : Char} {s : String} {pieces : List String} :
    Splits sep s pieces ↔ pieces = segments sep s := by
  constructor
  · rintro ⟨hne, rfl, hwhole⟩
    have hcut : cut sep ([sep].intercalate (pieces.map String.toList)) =
        pieces.map String.toList := by
      refine cut_intercalate (by simpa using hne) fun piece hpiece => ?_
      obtain ⟨s, hs, rfl⟩ := List.mem_map.mp hpiece
      exact hwhole s hs
    rw [segments, join, String.toList_intercalate, String.toList_singleton, hcut, List.map_map]
    exact (List.map_id'' (fun s => String.ofList_toList) pieces).symm
  · rintro rfl
    refine ⟨by simpa [segments] using cut_ne_nil sep s.toList, ?_, ?_⟩
    · have hback : (cut sep s.toList).map (String.toList ∘ String.ofList) = cut sep s.toList :=
        List.map_id'' (fun cs => String.toList_ofList) _
      apply String.toList_injective
      rw [join, String.toList_intercalate, String.toList_singleton, segments, List.map_map, hback,
        intercalate_cut]
    · intro piece hpiece
      obtain ⟨cs, hcs, rfl⟩ := List.mem_map.mp hpiece
      rw [String.toList_ofList]
      exact notMem_of_mem_cut hcs

end SchemaGraph.Text

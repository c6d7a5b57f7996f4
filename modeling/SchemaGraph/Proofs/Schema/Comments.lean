import Mathlib.Data.List.Induction
import Mathlib.Data.List.TakeWhile
import SchemaGraph.Descriptor.Comment

/-!
# Which comment a declaration has

A location records a text without the blanks around it (`Location.Records`), and of the
locations for one path the last that records anything counts (`Recorded`).

The main result, `recorded_commentAt`: the comment of the declaration at a path is the one
that its file records there, the empty one if there is none.
-/

namespace SchemaGraph

/-! ## Blanks around a text -/

/-- A text is what is left of another one without the blanks at its two ends. -/
structure Text.Trims (s rest : String) : Prop where
  parts : ∃ before after, s.toList = before ++ (rest.toList ++ after) ∧
    ∀ c ∈ before ++ after, isBlank c = true
  first : ∀ c, rest.toList.head? = some c → isBlank c = false
  last : ∀ c, rest.toList.getLast? = some c → isBlank c = false

theorem Text.trims_trim (s : String) : Trims s (trim s) := by
  have hfirst {cs : List Char} {c : Char} (h : (cs.dropWhile isBlank).head? = some c) :
      isBlank c = false := by
    have hnot := List.head?_dropWhile_not isBlank cs
    simpa only [h] using hnot
  have hrest : (trim s).toList =
      ((s.toList.dropWhile isBlank).reverse.dropWhile isBlank).reverse := String.toList_ofList
  -- The blanks at the end are dropped from what is left at the front.
  have hfront : s.toList.dropWhile isBlank = (trim s).toList ++
      ((s.toList.dropWhile isBlank).reverse.takeWhile isBlank).reverse := by
    rw [hrest, ← List.reverse_append, List.takeWhile_append_dropWhile, List.reverse_reverse]
  constructor
  · refine ⟨s.toList.takeWhile isBlank,
      ((s.toList.dropWhile isBlank).reverse.takeWhile isBlank).reverse, ?_, ?_⟩
    · rw [← hfront, List.takeWhile_append_dropWhile]
    · intro c hc
      rcases List.mem_append.mp hc with hc | hc
      · exact List.mem_takeWhile_imp hc
      · exact List.mem_takeWhile_imp (List.mem_reverse.mp hc)
  · intro c hc
    have hhead : (s.toList.dropWhile isBlank).head? = some c := by
      rw [hfront, List.head?_append, hc]
      rfl
    exact hfirst hhead
  · intro c hc
    rw [hrest, List.getLast?_reverse] at hc
    exact hfirst hc

/-! ## Locations -/

/-- A location records its leading text, or its trailing one if there is no leading one,
without the blanks around it. -/
def Location.Records (l : Location) (text : String) : Prop :=
  Text.Trims ((l.leading.or l.trailing).getD "") text

/-- The comment that locations record for a path: that of the last location for it with one
that is not empty, or the empty one. -/
inductive Recorded (locations : List Location) (path : List Int32) : String → Prop where
  | none (hblank : ∀ l ∈ locations, l.path = path → l.Records "") : Recorded locations path ""
  | last {before after : List Location} {l : Location} {text : String}
      (hsplit : locations = before ++ l :: after) (hpath : l.path = path)
      (hrecords : l.Records text) (htext : text ≠ "")
      (hafter : ∀ l' ∈ after, l'.path = path → l'.Records "") : Recorded locations path text

theorem Location.records_comment (l : Location) : l.Records l.comment := by
  obtain ⟨path, leading, trailing⟩ := l
  cases leading with
  | some text => exact Text.trims_trim text
  | none =>
      cases trailing with
      | some text => exact Text.trims_trim text
      | none => exact Text.trims_trim ""

/-- A location that records nothing for a path may be added at the end. -/
theorem Recorded.append_blank {locations : List Location} {path : List Int32} {text : String}
    {l : Location} (h : Recorded locations path text) (hblank : l.path = path → l.Records "") :
    Recorded (locations ++ [l]) path text := by
  have hlast {others : List Location} (hothers : ∀ l' ∈ others, l'.path = path → l'.Records "") :
      ∀ l' ∈ others ++ [l], l'.path = path → l'.Records "" := by
    intro l' hl'
    rcases List.mem_append.mp hl' with hl' | hl'
    · exact hothers l' hl'
    · rw [List.mem_singleton.mp hl']
      exact hblank
  cases h with
  | none hnone => exact Recorded.none (hlast hnone)
  | @last before after found _ hsplit hpath hrecords htext hafter =>
      have hsplit' : locations ++ [l] = before ++ found :: (after ++ [l]) := by
        rw [hsplit, List.append_assoc, List.cons_append]
      exact Recorded.last hsplit' hpath hrecords htext (hlast hafter)

/-- The comment of a declaration is the one recorded for its path. -/
theorem recorded_commentAt (file : FileDecl) (path : List Int32) :
    Recorded file.locations path (file.commentAt path) := by
  rw [FileDecl.commentAt]
  -- Later locations override earlier ones, so the induction is from the end.
  induction file.locations using List.reverseRecOn with
  | nil => exact Recorded.none fun l hl => absurd hl List.not_mem_nil
  | append_singleton locations l ih =>
      by_cases hpath : l.path = path
      · by_cases htext : l.comment = ""
        · have hblank : l.Records "" := htext ▸ l.records_comment
          simpa [hpath, htext] using ih.append_blank fun _ => hblank
        · have hrecorded : Recorded (locations ++ [l]) path l.comment :=
            Recorded.last rfl hpath l.records_comment htext fun l' hl' => absurd hl' List.not_mem_nil
          simpa [hpath, htext] using hrecorded
      · simpa [hpath] using ih.append_blank fun heq => absurd heq hpath

end SchemaGraph

/-!
# Segments of dotted and slashed names

Cutting a text at a separator, and the small tests on the two ends of a text
that names need.  A text always has one more segment than separators, so the
empty text has one empty segment.
-/

namespace SchemaGraph.Text

/-- Cuts a list at every occurrence of `sep`. -/
def cut {α : Type} [DecidableEq α] (sep : α) : List α → List (List α)
  | [] => [[]]
  | c :: rest =>
    if c = sep then [] :: cut sep rest
    else match cut sep rest with
      | [] => [[c]]
      | piece :: pieces => (c :: piece) :: pieces

/-- The pieces of a text between the separators, in order. -/
def segments (sep : Char) (s : String) : List String :=
  (cut sep s.toList).map String.ofList

/-- The piece after the last separator; the whole text when there is none. -/
def lastSegment (sep : Char) (s : String) : String :=
  ((segments sep s).getLast?).getD s

/-- The texts with `sep` between neighbours. -/
def join (sep : String) (parts : List String) : String :=
  sep.intercalate parts

/-- Whether a text ends with another one. -/
def endsWith (s tail : String) : Bool :=
  tail.toList.isSuffixOf s.toList

/-- Whether a text starts with another one. -/
def startsWith (s head : String) : Bool :=
  head.toList.isPrefixOf s.toList

/-- The text without its first character, if that character is `c`. -/
def dropLeading (c : Char) (s : String) : String :=
  match s.toList with
  | [] => s
  | first :: rest => if first = c then String.ofList rest else s

/-- The text with one character put in place of another. -/
def replace (old new : Char) (s : String) : String :=
  s.map fun c => if c = old then new else c

/-- The lines of a text: a line ends at a line feed, a carriage return just
before it belongs to the end, and a last line may lack its end. -/
def lines (s : String) : List String :=
  let pieces := cut '\n' s.toList
  let pieces := if pieces.getLast? = some [] then pieces.dropLast else pieces
  let last := pieces.length - 1
  let ended := s.toList.getLast? = some '\n'
  pieces.zipIdx.map fun (piece, i) =>
    if piece.getLast? = some '\r' ∧ (i < last ∨ ended) then String.ofList piece.dropLast
    else String.ofList piece

/-- The text padded with blanks on the left to a least width. -/
def padLeft (width : Nat) (s : String) : String :=
  String.ofList (List.replicate (width - s.length) ' ') ++ s

theorem cut_ne_nil {α : Type} [DecidableEq α] (sep : α) (cs : List α) : cut sep cs ≠ [] := by
  cases cs with
  | nil => simp [cut]
  | cons c rest =>
      unfold cut
      split
      · simp
      · split <;> simp

/-- Putting the separators back gives the list that was cut. -/
theorem intercalate_cut {α : Type} [DecidableEq α] (sep : α) (cs : List α) :
    [sep].intercalate (cut sep cs) = cs := by
  induction cs with
  | nil => simp [cut, List.intercalate]
  | cons c rest ih =>
      unfold cut
      split
      · next h =>
        subst h
        cases hcut : cut c rest with
        | nil => exact absurd hcut (cut_ne_nil c rest)
        | cons piece pieces =>
            rw [hcut] at ih
            simp [List.intercalate, List.intersperse] at ih ⊢
            exact ih
      · split
        · next hcut => exact absurd hcut (cut_ne_nil sep rest)
        · next piece pieces hcut =>
            rw [hcut] at ih
            cases pieces <;> simp_all [List.intercalate, List.intersperse]

end SchemaGraph.Text

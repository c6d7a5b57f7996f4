import Mathlib.Data.Nat.Digits.Defs
import SchemaGraph.Descriptor.Version
import SchemaGraph.Proofs.Text.Segment

/-!
# Which segment decides the version

The segments that are looked at are those of the package and the directories of the file
name, each from the last to the first (`FileDecl.Searches`).  A segment names a version if it
is the letter `v` and ASCII digits with a number of at most 31 bits (`NamesVersion`).

The main result, `majorVersion_first`: the version of a file is the one that the first such
segment names, whatever is passed over before it, and one if there is none
(`FirstVersion`).  So it never is negative, although it is kept in 32 bits with a sign.

Leading zeros do not matter, and a number may have any number of digits.  The base name of
the file is not looked at.
-/

namespace SchemaGraph

/-- The number that digits stand for. -/
def decimalValue (digits : List Char) : Nat :=
  Nat.ofDigits 10 (digits.map fun c => c.toNat - '0'.toNat).reverse

/-- A segment is the letter `v` and the digits of a number. -/
structure NamesVersion (segment : String) (n : Nat) : Prop where
  digits : ∃ digits, segment.toList = 'v' :: digits ∧ digits ≠ [] ∧
    (∀ c ∈ digits, '0' ≤ c ∧ c ≤ '9') ∧ decimalValue digits = n
  range : n ≤ 0x7fffffff

/-- The version that the first segment names that names one, and one if none does. -/
inductive FirstVersion : List String → Nat → Prop where
  | named {before after : List String} {segment : String} {n : Nat}
      (hbefore : ∀ s ∈ before, ∀ m, ¬ NamesVersion s m) (h : NamesVersion segment n) :
      FirstVersion (before ++ segment :: after) n
  | unnamed {segments : List String} (h : ∀ s ∈ segments, ∀ m, ¬ NamesVersion s m) :
      FirstVersion segments 1

/-- The segments that are looked at for the version of a file, in order: those of the
package and then the directories of the file name, from the last to the first. -/
def FileDecl.Searches (file : FileDecl) (segments : List String) : Prop :=
  ∃ packages directories base, Text.Splits '.' file.package packages ∧
    Text.Splits '/' file.name (directories ++ [base]) ∧
    segments = packages.reverse ++ directories.reverse

/-- A version of a file: the one that decides among the segments that are looked at. -/
def FileDecl.HasVersion (file : FileDecl) (version : Int32) : Prop :=
  ∃ segments, file.Searches segments ∧ ∃ n : Nat, FirstVersion segments n ∧ version.toInt = n

variable {n : Nat} {cs : List Char} {segment : String} {segments : List String}

/-! ## Segments -/

theorem decimalValue_cons (c : Char) (cs : List Char) :
    decimalValue (c :: cs) = decimalValue cs + 10 ^ cs.length * (c.toNat - 48) := by
  rw [decimalValue, List.map_cons, Nat.ofDigits_reverse_cons, List.length_map, decimalValue]
  rfl

/-- Reading digits from the left gives their number. -/
theorem foldl_digits (cs : List Char) (n : Nat) :
    cs.foldl (fun n c => 10 * n + (c.toNat - 48)) n = decimalValue cs + 10 ^ cs.length * n := by
  induction cs generalizing n with
  | nil => simp [decimalValue]
  | cons c rest ih =>
      rw [List.foldl_cons, ih, decimalValue_cons, List.length_cons]
      ring

theorem digitsNumber?_eq_some_iff :
    digitsNumber? cs = some n ↔
      cs ≠ [] ∧ (∀ c ∈ cs, '0' ≤ c ∧ c ≤ '9') ∧ decimalValue cs = n := by
  have hvalue : cs.foldl (fun n c => 10 * n + (c.toNat - 48)) 0 = decimalValue cs := by
    rw [foldl_digits, Nat.mul_zero, Nat.add_zero]
  have hall : cs.all (fun c => '0' ≤ c && c ≤ '9') = true ↔ ∀ c ∈ cs, '0' ≤ c ∧ c ≤ '9' := by
    simp [List.all_eq_true]
  rw [digitsNumber?, hvalue]
  split
  · next h =>
    rw [Option.some.injEq]
    exact ⟨fun hn => ⟨h.1, hall.mp h.2, hn⟩, fun hn => hn.2.2⟩
  · next h =>
    simp only [reduceCtorEq, false_iff]
    rintro ⟨hne, hdigits, -⟩
    exact h ⟨hne, hall.mpr hdigits⟩

theorem segmentVersion?_eq_some_iff : segmentVersion? segment = some n ↔ NamesVersion segment n := by
  constructor
  · intro h
    rw [segmentVersion?] at h
    split at h
    · next digits hsegment =>
      split at h
      · next m hm =>
        split at h
        · next hrange =>
          cases h
          exact ⟨⟨digits, hsegment, digitsNumber?_eq_some_iff.mp hm⟩, hrange⟩
        · cases h
      · cases h
    · cases h
  · rintro ⟨⟨digits, hsegment, hdigits⟩, hrange⟩
    have hnumber := digitsNumber?_eq_some_iff.mpr hdigits
    simp only [segmentVersion?, hsegment, hnumber]
    exact if_pos hrange

theorem segmentVersion?_eq_none_iff :
    segmentVersion? segment = none ↔ ∀ m, ¬ NamesVersion segment m := by
  rw [Option.eq_none_iff_forall_ne_some]
  exact forall_congr' fun m => not_congr segmentVersion?_eq_some_iff

/-! ## The search -/

/-- The segments in order of precedence are the ones that are to be looked at. -/
theorem FileDecl.searches_iff {file : FileDecl} :
    file.Searches segments ↔ segments = versionSegments file.package file.name := by
  constructor
  · rintro ⟨packages, directories, base, hpackage, hname, rfl⟩
    rw [versionSegments, ← Text.splits_iff.mp hpackage, ← Text.splits_iff.mp hname,
      List.dropLast_concat]
  · rintro rfl
    have hname : Text.segments '/' file.name ≠ [] :=
      (Text.splits_iff.mpr rfl : Text.Splits '/' file.name _).nonempty
    refine ⟨_, (Text.segments '/' file.name).dropLast, (Text.segments '/' file.name).getLast hname,
      Text.splits_iff.mpr rfl, ?_, rfl⟩
    rw [List.dropLast_concat_getLast]
    exact Text.splits_iff.mpr rfl

/-- The search for a version ends with the first one. -/
theorem firstVersion_iff :
    FirstVersion segments n ↔ (segments.findSome? segmentVersion?).getD 1 = n := by
  constructor
  · intro h
    cases h with
    | @named before after segment _ hbefore h =>
        have hfound : (before ++ segment :: after).findSome? segmentVersion? = some n :=
          List.findSome?_eq_some_iff.mpr ⟨_, _, _, rfl, segmentVersion?_eq_some_iff.mpr h,
            fun s hs => segmentVersion?_eq_none_iff.mpr (hbefore s hs)⟩
        rw [hfound, Option.getD_some]
    | unnamed h =>
        have hfound : segments.findSome? segmentVersion? = none :=
          List.findSome?_eq_none_iff.mpr fun s hs => segmentVersion?_eq_none_iff.mpr (h s hs)
        rw [hfound, Option.getD_none]
  · rintro rfl
    cases hfound : segments.findSome? segmentVersion? with
    | none =>
        rw [List.findSome?_eq_none_iff] at hfound
        exact .unnamed fun s hs => segmentVersion?_eq_none_iff.mp (hfound s hs)
    | some n =>
        obtain ⟨before, segment, after, rfl, hn, hbefore⟩ := List.findSome?_eq_some_iff.mp hfound
        exact .named (fun s hs => segmentVersion?_eq_none_iff.mp (hbefore s hs))
          (segmentVersion?_eq_some_iff.mp hn)

theorem FirstVersion.le (h : FirstVersion segments n) : n ≤ 0x7fffffff := by
  cases h with
  | named _ h => exact h.range
  | unnamed _ => decide

theorem toInt_majorVersion (file : FileDecl) :
    file.majorVersion.toInt = (majorVersionOf file.package file.name : Nat) :=
  Int32.toInt_ofNat_of_lt (Nat.lt_succ_of_le (FirstVersion.le (firstVersion_iff.mpr rfl)))

/-- A file has the version that is kept for it. -/
theorem hasVersion_majorVersion (file : FileDecl) : file.HasVersion file.majorVersion :=
  ⟨_, FileDecl.searches_iff.mpr rfl, _, firstVersion_iff.mpr rfl, toInt_majorVersion file⟩

/-- The major version of a file is the one that decides among the segments of its package
and of its directories, and a number of at most 31 bits. -/
theorem majorVersion_first (file : FileDecl) :
    ∃ segments, (∀ other, file.Searches other ↔ other = segments) ∧
      (∀ n : Nat, FirstVersion segments n ↔ file.majorVersion.toInt = n) ∧
      0 ≤ file.majorVersion.toInt ∧ file.majorVersion.toInt ≤ 0x7fffffff := by
  have hle : majorVersionOf file.package file.name ≤ 0x7fffffff :=
    FirstVersion.le (firstVersion_iff.mpr rfl)
  have hvalue := toInt_majorVersion file
  refine ⟨_, fun other => FileDecl.searches_iff, fun n => ?_, ?_, ?_⟩
  · rw [firstVersion_iff, hvalue, Int.natCast_inj]
    rfl
  · rw [hvalue]
    exact Int.natCast_nonneg _
  · rw [hvalue]
    exact Int.ofNat_le.mpr hle

/-- Numbers that are too large and other digits are passed over, leading zeros are not. -/
example : majorVersionOf "v1.v٣" "api/v007/v2147483648/v9.proto" = 1 ∧
    majorVersionOf "acme.v2x" "api/v007/v2147483648/v9.proto" = 7 := by
  decide +kernel

end SchemaGraph

import Mathlib
import SchemaGraph.Proofs.Decimal.Shortest

/-!
# The text of a double

A decimal is written as digits, a point with further digits or none, and a power of
ten or none (`Written`).  Its characters say which parts it has, and the parts which
value (`Written.Proper.eq_of_chars`, `Positive.value_written`).  Since a shortest
decimal names its double, no two doubles share a text (`text_injective`); here a double
with all exponent bits set counts by its bits like any other.
-/

namespace SchemaGraph

/-- Two lists agree in the part where a property holds, and in what follows it. -/
theorem append_inj_of_forall {α : Type} {p : α → Bool} {as as' rest rest' : List α}
    (h : as ++ rest = as' ++ rest') (has : ∀ a ∈ as, p a = true) (has' : ∀ a ∈ as', p a = true)
    (hrest : ∀ a ∈ rest.head?, p a = false) (hrest' : ∀ a ∈ rest'.head?, p a = false) :
    as = as' ∧ rest = rest' := by
  have htake {as rest : List α} (has : ∀ a ∈ as, p a = true)
      (hrest : ∀ a ∈ rest.head?, p a = false) : (as ++ rest).takeWhile p = as := by
    rw [List.takeWhile_append_of_pos has]
    cases rest with
    | nil => exact List.append_nil as
    | cons a rest => rw [List.takeWhile_cons_of_neg (by simp [hrest a rfl]), List.append_nil]
  obtain rfl : as = as' := by rw [← htake has hrest, h, htake has' hrest']
  exact ⟨rfl, List.append_cancel_left h⟩

namespace Decimal

/-! ## Decimals in writing -/

/-- The parts of a decimal in writing: the digits before and after the point, and the
power of ten. -/
structure Written where
  whole : List Char
  fraction : List Char
  power : Option Int

namespace Written

/-- The point and the digits after it, if there are any. -/
def fractionChars (fraction : List Char) : List Char :=
  if fraction = [] then [] else '.' :: fraction

/-- The mark of a power of ten, its sign and its digits. -/
def powerChars : Option Int → List Char
  | none => []
  | some e => 'e' :: (if e < 0 then '-' else '+') :: Nat.toDigits 10 e.natAbs

/-- The parts one after the other. -/
def chars (w : Written) : List Char :=
  w.whole ++ (fractionChars w.fraction ++ powerChars w.power)

/-- The value that is written. -/
def value (w : Written) : ℚ :=
  Nat.ofDigitChars 10 (w.whole ++ w.fraction) 0 * 10 ^ (w.power.getD 0 - w.fraction.length)

/-- There are digits, and a point or a power of ten. -/
structure Proper (w : Written) : Prop where
  whole_ne_nil : w.whole ≠ []
  isDigit_whole : ∀ c ∈ w.whole, c.isDigit = true
  isDigit_fraction : ∀ c ∈ w.fraction, c.isDigit = true
  marked : w.fraction ≠ [] ∨ w.power ≠ none

variable {w w' : Written}

theorem value_eq {n : Nat} {e : Int} (hdigits : Nat.ofDigitChars 10 (w.whole ++ w.fraction) 0 = n)
    (hpower : w.power.getD 0 - w.fraction.length = e) : w.value = n * 10 ^ e := by
  rw [value, hdigits, hpower]

theorem head?_fractionChars {fraction rest : List Char} (h : fraction ≠ []) :
    (fractionChars fraction ++ rest).head? = some '.' := by
  rw [fractionChars, if_neg h]
  rfl

theorem eq_of_head?_powerChars (power : Option Int) :
    ∀ c ∈ (powerChars power).head?, c = 'e' := by
  cases power with
  | none => exact fun c hc => by cases hc
  | some e => exact fun c hc => (Option.some.inj hc).symm

theorem powerChars_injective : Function.Injective powerChars := by
  intro power power' h
  cases power with
  | none =>
      cases power' with
      | none => rfl
      | some e' => cases h
  | some e =>
      cases power' with
      | none => cases h
      | some e' =>
          obtain ⟨hsign, hdigits⟩ := List.cons.inj (List.cons.inj h).2
          have hsize : e.natAbs = e'.natAbs := by
            rw [← @Nat.ofDigitChars_ten_toDigits e.natAbs, hdigits, Nat.ofDigitChars_ten_toDigits]
          have hneg : e < 0 ↔ e' < 0 := by
            by_cases he : e < 0 <;> by_cases he' : e' < 0
            · exact iff_of_true he he'
            · rw [if_pos he, if_neg he'] at hsign
              cases hsign
            · rw [if_neg he, if_pos he'] at hsign
              cases hsign
            · exact iff_of_false he he'
          congr 1
          omega

/-- Neither a point nor a power of ten starts with a digit. -/
theorem isDigit_head?_marks (w : Written) :
    ∀ c ∈ (fractionChars w.fraction ++ powerChars w.power).head?, c.isDigit = false := by
  intro c hc
  by_cases hnil : w.fraction = []
  · rw [fractionChars, if_pos hnil, List.nil_append] at hc
    rw [eq_of_head?_powerChars _ c hc]
    rfl
  · rw [head?_fractionChars hnil] at hc
    rw [← Option.some.inj hc]
    rfl

/-- The characters say which parts there are. -/
theorem Proper.eq_of_chars (hw : w.Proper) (hw' : w'.Proper) (h : w.chars = w'.chars) : w = w' := by
  obtain ⟨hwhole, hmarks⟩ := append_inj_of_forall h hw.isDigit_whole hw'.isDigit_whole
    w.isDigit_head?_marks w'.isDigit_head?_marks
  obtain ⟨hfraction, hpower⟩ : w.fraction = w'.fraction ∧ powerChars w.power = powerChars w'.power := by
    have hdigit (power : Option Int) : ∀ c ∈ (powerChars power).head?, c.isDigit = false := by
      intro c hc
      rw [eq_of_head?_powerChars power c hc]
      rfl
    have hpoint {w w' : Written} (hnil : w.fraction = []) (hne : w'.fraction ≠ [])
        (h : fractionChars w.fraction ++ powerChars w.power =
          fractionChars w'.fraction ++ powerChars w'.power) : False := by
      have hhead := congrArg List.head? h
      rw [head?_fractionChars hne, fractionChars, if_pos hnil, List.nil_append] at hhead
      cases eq_of_head?_powerChars _ _ hhead
    by_cases hnil : w.fraction = [] <;> by_cases hnil' : w'.fraction = []
    · rw [hnil, hnil'] at hmarks ⊢
      exact ⟨rfl, hmarks⟩
    · exact absurd hmarks fun h => hpoint hnil hnil' h
    · exact absurd hmarks.symm fun h => hpoint hnil' hnil h
    · rw [fractionChars, fractionChars, if_neg hnil, if_neg hnil'] at hmarks
      exact append_inj_of_forall (List.cons.inj hmarks).2 hw.isDigit_fraction
        hw'.isDigit_fraction (hdigit _) (hdigit _)
  obtain ⟨whole, fraction, power⟩ := w
  obtain ⟨whole', fraction', power'⟩ := w'
  exact (Written.mk.injEq ..).mpr ⟨hwhole, hfraction, powerChars_injective hpower⟩

/-- The characters that numbers are written with. -/
theorem Proper.mem_chars (h : w.Proper) {c : Char} (hc : c ∈ w.chars) :
    c.isDigit = true ∨ c = '.' ∨ c = 'e' ∨ c = '-' ∨ c = '+' := by
  rw [chars, List.mem_append, List.mem_append] at hc
  obtain hc | hc | hc := hc
  · exact Or.inl (h.isDigit_whole c hc)
  · rw [fractionChars] at hc
    split at hc
    · cases hc
    · rcases List.mem_cons.mp hc with rfl | hc
      · exact Or.inr (Or.inl rfl)
      · exact Or.inl (h.isDigit_fraction c hc)
  · cases hpower : w.power with
    | none =>
        rw [hpower] at hc
        cases hc
    | some e =>
        rw [hpower] at hc
        rcases List.mem_cons.mp hc with rfl | hc
        · exact Or.inr (Or.inr (Or.inl rfl))
        · rcases List.mem_cons.mp hc with rfl | hc
          · split <;> simp
          · exact Or.inl (Nat.isDigit_of_mem_toDigits (by decide) (by decide) hc)

/-- The mark that keeps a decimal from being read as a whole number. -/
theorem Proper.exists_mark (h : w.Proper) : '.' ∈ w.chars ∨ 'e' ∈ w.chars := by
  obtain hfraction | hpower := h.marked
  · left
    rw [chars, fractionChars, if_neg hfraction]
    simp
  · right
    obtain ⟨e, he⟩ := Option.ne_none_iff_exists'.mp hpower
    rw [chars, he]
    simp [powerChars]

end Written

/-! ## Positive decimals -/

section Positive

/-- A positive decimal in writing. -/
def Positive.written (layout : Layout) (d : Positive) : Written :=
  let ds := Nat.toDigits 10 d.digits
  let e := d.exponent + (ds.length : Int) - 1
  if layout.least ≤ e ∧ e < layout.limit then
    if d.exponent ≥ 0 then ⟨ds ++ List.replicate d.exponent.toNat '0', ['0'], none⟩
    else if e ≥ 0 then ⟨ds.take (e.toNat + 1), ds.drop (e.toNat + 1), none⟩
    else ⟨['0'], List.replicate ((-e).toNat - 1) '0' ++ ds, none⟩
  else ⟨ds.take 1, ds.drop 1, some e⟩

variable (layout : Layout) (d : Positive)

theorem Positive.toList_text : (d.text layout).toList = (d.written layout).chars := by
  have hne : Nat.toDigits 10 d.digits ≠ [] := Nat.toDigits_ne_nil
  rw [text, written, Nat.toString_eq_ofList_toDigits, String.toList_ofList]
  generalize Nat.toDigits 10 d.digits = ds at *
  dsimp only
  split
  · split
    · simp [Written.chars, Written.fractionChars, Written.powerChars]
    · split
      · have hdrop : ds.drop ((d.exponent + (ds.length : Int) - 1).toNat + 1) ≠ [] := by
          rw [Ne, List.drop_eq_nil_iff]
          omega
        rw [Written.chars, Written.fractionChars, if_neg hdrop]
        simp [Written.powerChars]
      · simp [Written.chars, Written.fractionChars, Written.powerChars, hne]
  · generalize d.exponent + (ds.length : Int) - 1 = e
    have hpower : ("e" ++ (if e < 0 then "-" else "+") ++ toString e.natAbs).toList =
        Written.powerChars (some e) := by
      rw [Nat.toString_eq_ofList_toDigits]
      split_ifs with h <;> simp [Written.powerChars, h]
    rw [String.append_assoc, String.append_assoc, String.toList_append, ← String.append_assoc, hpower]
    match ds with
    | [] => exact absurd rfl hne
    | [c] => simp [Written.chars, Written.fractionChars]
    | c :: c' :: rest => simp [Written.chars, Written.fractionChars]

theorem Positive.proper_written : (d.written layout).Proper := by
  have hne : Nat.toDigits 10 d.digits ≠ [] := Nat.toDigits_ne_nil
  have hdigits : ∀ c ∈ Nat.toDigits 10 d.digits, c.isDigit = true := fun c hc =>
    Nat.isDigit_of_mem_toDigits (by decide) (by decide) hc
  have hzeros (n : Nat) : ∀ c ∈ List.replicate n '0', c.isDigit = true := fun c hc => by
    rw [List.eq_of_mem_replicate hc]
    rfl
  have happend {ds ds' : List Char} (h : ∀ c ∈ ds, c.isDigit = true)
      (h' : ∀ c ∈ ds', c.isDigit = true) : ∀ c ∈ ds ++ ds', c.isDigit = true :=
    fun c hc => (List.mem_append.mp hc).elim (h c) (h' c)
  rw [written]
  generalize Nat.toDigits 10 d.digits = ds at *
  split
  · split
    · exact ⟨List.append_ne_nil_of_left_ne_nil hne _, happend hdigits (hzeros _), hzeros 1,
        Or.inl (List.cons_ne_nil _ _)⟩
    · split
      · refine ⟨?_, fun c hc => hdigits c (List.mem_of_mem_take hc),
          fun c hc => hdigits c (List.mem_of_mem_drop hc), Or.inl ?_⟩
        · simp [hne]
        · rw [Ne, List.drop_eq_nil_iff]
          omega
      · exact ⟨List.cons_ne_nil _ _, hzeros 1, happend (hzeros _) hdigits,
          Or.inl (List.append_ne_nil_of_right_ne_nil _ hne)⟩
  · exact ⟨by simp [hne], fun c hc => hdigits c (List.mem_of_mem_take hc),
      fun c hc => hdigits c (List.mem_of_mem_drop hc), Or.inr (Option.some_ne_none _)⟩

/-- What is written has the value of the decimal. -/
theorem Positive.value_written : (d.written layout).value = d.value := by
  have hne : Nat.toDigits 10 d.digits ≠ [] := Nat.toDigits_ne_nil
  have hvalue : d.value = Nat.ofDigitChars 10 (Nat.toDigits 10 d.digits) 0 * 10 ^ d.exponent := by
    rw [Nat.ofDigitChars_ten_toDigits, value]
  rw [hvalue, written]
  generalize Nat.toDigits 10 d.digits = ds at *
  have hlength := List.length_pos_iff.mpr hne
  split
  · split
    · next hwhole =>
      -- The zeros and the one after the point, which the power takes back.
      have hdigits : Nat.ofDigitChars 10 (ds ++ List.replicate d.exponent.toNat '0' ++ ['0']) 0 =
          10 ^ (d.exponent.toNat + 1) * Nat.ofDigitChars 10 ds 0 := by
        rw [List.append_assoc, ← List.replicate_succ', Nat.ofDigitChars_append,
          Nat.ofDigitChars_replicate_zero]
      rw [Written.value_eq hdigits (e := -1) rfl, zpow_of_nonneg 10 hwhole]
      push_cast
      rw [pow_succ]
      ring
    · split
      · refine Written.value_eq (congrArg (Nat.ofDigitChars 10 · 0) (List.take_append_drop _ ds)) ?_
        rw [Option.getD_none, List.length_drop]
        omega
      · refine Written.value_eq ?_ ?_
        · rw [← List.append_assoc, Nat.ofDigitChars_append]
          congr 1
          exact (@Nat.ofDigitChars_replicate_zero 10 0 (_ + 1)).trans (Nat.mul_zero _)
        · rw [Option.getD_none, List.length_append, List.length_replicate]
          omega
  · refine Written.value_eq (congrArg (Nat.ofDigitChars 10 · 0) (List.take_append_drop _ ds)) ?_
    rw [Option.getD_some, List.length_drop]
    omega

end Positive

/-! ## Doubles -/

/-- A double without its sign in writing. -/
def written (x : Binary64) : Written :=
  if x.mantissa = 0 then ⟨['0'], ['0'], none⟩ else (shortest x).written Layout.plain

/-- The sign of a double, if one is written. -/
def signChars (x : Binary64) : List Char := if x.isNegative then ['-'] else []

theorem toList_text (x : Binary64) : (text x).toList = signChars x ++ (written x).chars := by
  have hsign : (if x.isNegative then "-" else "").toList = signChars x := by
    rw [signChars]
    cases x.isNegative <;> rfl
  rw [text, written, ← hsign]
  split
  · exact String.toList_append
  · rw [String.toList_append, Positive.toList_text]

theorem proper_written (x : Binary64) : (written x).Proper := by
  rw [written]
  split
  · exact ⟨List.cons_ne_nil _ _, by simp, by simp, Or.inl (List.cons_ne_nil _ _)⟩
  · exact Positive.proper_written _ _

theorem value_written_of_zero {x : Binary64} (hx : x.mantissa = 0) : (written x).value = 0 := by
  rw [written, if_pos hx]
  exact (Written.value_eq (n := 0) rfl rfl).trans (by simp)

theorem admits_value_written {x : Binary64} (hx : x.mantissa ≠ 0) :
    (bounds x).Admits (written x).value := by
  rw [written, if_neg hx, Positive.value_written]
  exact shortest_admitted hx

theorem value_written_eq_zero_iff {x : Binary64} : (written x).value = 0 ↔ x.mantissa = 0 := by
  refine ⟨fun h => ?_, value_written_of_zero⟩
  by_contra hx
  exact (pos_of_admits hx (admits_value_written hx)).ne' h

/-- The digits of a double and what they are worth are those of its place. -/
theorem place_eq_of_value {x y : Binary64} (h : (written x).value = (written y).value) :
    x.place = y.place := by
  by_cases hx : x.mantissa = 0
  · have hy : y.mantissa = 0 := by
      rw [← value_written_eq_zero_iff, ← h, value_written_of_zero hx]
    rw [x.place_eq_zero_iff.mpr hx, y.place_eq_zero_iff.mpr hy]
  · have hy : y.mantissa ≠ 0 := by
      rwa [Ne, ← value_written_eq_zero_iff, ← h, value_written_eq_zero_iff]
    exact place_eq_of_admits hx hy (admits_value_written hx) (h ▸ admits_value_written hy)

/-- The first character after the sign is a digit. -/
theorem ne_minus_of_head? (x : Binary64) : ∀ c ∈ (written x).chars.head?, (c == '-') = false := by
  intro c hc
  have hproper := proper_written x
  obtain ⟨d, rest, hwhole⟩ := List.exists_cons_of_ne_nil hproper.whole_ne_nil
  rw [Written.chars, hwhole] at hc
  obtain rfl := Option.some.inj hc
  have hdigit := hproper.isDigit_whole d (hwhole ▸ List.mem_cons_self)
  refine beq_eq_false_iff_ne.mpr fun heq => ?_
  rw [heq] at hdigit
  cases hdigit

/-- No two doubles share a text. -/
theorem text_injective : Function.Injective text := by
  intro x y h
  have hchars : signChars x ++ (written x).chars = signChars y ++ (written y).chars := by
    rw [← toList_text, ← toList_text, h]
  have hminus (x : Binary64) : ∀ c ∈ signChars x, (c == '-') = true := by
    intro c hc
    rw [signChars] at hc
    split at hc
    · rw [List.mem_singleton.mp hc]
      rfl
    · cases hc
  obtain ⟨hsigns, hwritten⟩ := append_inj_of_forall hchars (hminus x) (hminus y)
    (ne_minus_of_head? x) (ne_minus_of_head? y)
  have hsign : x.isNegative = y.isNegative := by
    rw [signChars, signChars] at hsigns
    cases hx : x.isNegative <;> cases hy : y.isNegative <;> simp [hx, hy] at hsigns ⊢
  exact Binary64.eq_of_place hsign
    (place_eq_of_value (congrArg Written.value ((proper_written x).eq_of_chars (proper_written y) hwritten)))

/-- The characters that doubles are written with. -/
theorem mem_text {x : Binary64} {c : Char} (hc : c ∈ (text x).toList) :
    c.isDigit = true ∨ c = '.' ∨ c = 'e' ∨ c = '-' ∨ c = '+' := by
  rw [toList_text, List.mem_append, signChars] at hc
  obtain hc | hc := hc
  · split at hc
    · rw [List.mem_singleton.mp hc]
      simp
    · cases hc
  · exact (proper_written x).mem_chars hc

/-- The mark that keeps a double from being read as a whole number. -/
theorem exists_mark (x : Binary64) : '.' ∈ (text x).toList ∨ 'e' ∈ (text x).toList := by
  rw [toList_text, List.mem_append, List.mem_append]
  exact (proper_written x).exists_mark.imp Or.inr Or.inr

end Decimal

end SchemaGraph

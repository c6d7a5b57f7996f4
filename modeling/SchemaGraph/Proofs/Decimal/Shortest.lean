import Mathlib
import SchemaGraph.Decimal.Shortest

/-!
# Shortest decimals name their doubles

The shortest decimal of a double other than zero lies within the bounds of the reals
that round to it (`shortest_admitted`): the search starts above the leading digit, and
seventeen digits down the grid is finer than the distance to a bound.  The bounds of
different doubles of one sign meet at most in an end that one of the two leaves out
(`place_eq_of_admits`), so the decimal says which double it is for.

That no decimal with fewer digits would do is not said here.
-/

namespace SchemaGraph

/-! ## Powers of negative exponents -/

theorem zpow_of_nonneg (b : ℚ) {q : ℤ} (h : 0 ≤ q) : b ^ q = b ^ q.toNat := by
  rw [← zpow_natCast, Int.toNat_of_nonneg h]

theorem zpow_of_neg (b : ℚ) {q : ℤ} (h : q < 0) : b ^ q = (b ^ (-q).toNat)⁻¹ := by
  rw [← zpow_natCast, Int.toNat_of_nonneg (by omega), zpow_neg, inv_inv]

namespace Decimal

/-- The value of a positive decimal. -/
def Positive.value (d : Positive) : ℚ := d.digits * 10 ^ d.exponent

/-! ## Comparisons of whole numbers -/

section Ratio

variable (b : Nat) (q k : Int)

theorem ratio_den_pos : 0 < (ratio b q k).2 := by
  rw [ratio]
  simp only [Nat.pow_eq]
  split_ifs <;> positivity

/-- The two whole numbers have the quotient that they are compared for. -/
theorem ratio_div : ((ratio b q k).1 : ℚ) / (ratio b q k).2 = b * 2 ^ q / 10 ^ k := by
  have hq : (b : ℚ) * 2 ^ q =
      ((if q ≥ 0 then b * Nat.pow 2 q.toNat else b : Nat) : ℚ) /
        ((if q ≥ 0 then 1 else Nat.pow 2 (-q).toNat : Nat) : ℚ) := by
    split_ifs with h
    · rw [zpow_of_nonneg 2 h]
      simp
    · rw [zpow_of_neg 2 (by omega)]
      simp [div_eq_mul_inv]
  rw [ratio, hq]
  generalize (if q ≥ 0 then b * Nat.pow 2 q.toNat else b) = num
  generalize (if q ≥ 0 then 1 else Nat.pow 2 (-q).toNat) = den
  split
  · next hk =>
    rw [zpow_of_nonneg 10 hk, Nat.pow_eq, Nat.cast_mul, Nat.cast_pow, Nat.cast_ofNat,
      div_mul_eq_div_div]
  · next hk =>
    rw [zpow_of_neg 10 (not_le.mp hk), Nat.pow_eq, Nat.cast_mul, Nat.cast_pow, Nat.cast_ofNat,
      div_inv_eq_mul, div_mul_eq_mul_div]

variable {b q k}

theorem le_ratio_iff {n : Nat} :
    n * (ratio b q k).2 ≤ (ratio b q k).1 ↔ (n : ℚ) * 10 ^ k ≤ b * 2 ^ q := by
  have hden : (0 : ℚ) < (ratio b q k).2 := Nat.cast_pos.mpr (ratio_den_pos b q k)
  rw [← @Nat.cast_le ℚ, Nat.cast_mul, ← le_div_iff₀ hden, ratio_div,
    le_div_iff₀ (by positivity)]

theorem ratio_le_iff {n : Nat} :
    (ratio b q k).1 ≤ n * (ratio b q k).2 ↔ (b : ℚ) * 2 ^ q ≤ n * 10 ^ k := by
  have hden : (0 : ℚ) < (ratio b q k).2 := Nat.cast_pos.mpr (ratio_den_pos b q k)
  rw [← @Nat.cast_le ℚ, Nat.cast_mul, ← div_le_iff₀ hden, ratio_div,
    div_le_iff₀ (by positivity)]

end Ratio

/-! ## Bounds -/

namespace Bounds

/-- A real lies within the bounds, which count themselves if they are closed. -/
structure Admits (b : Bounds) (v : ℚ) : Prop where
  low_le : (b.low : ℚ) * 2 ^ b.exponent ≤ v
  le_high : v ≤ b.high * 2 ^ b.exponent
  closed_of_eq : v = b.low * 2 ^ b.exponent ∨ v = b.high * 2 ^ b.exponent → b.closed = true

variable {b : Bounds} {n : Nat} {k : Int}

theorem contains_iff : b.contains n k = true ↔ b.Admits (n * 10 ^ k) := by
  rw [contains]
  dsimp only
  split_ifs with hclosed
  · rw [Bool.and_eq_true, decide_eq_true_iff, decide_eq_true_iff, ratio_le_iff, le_ratio_iff]
    exact ⟨fun h => ⟨h.1, h.2, fun _ => hclosed⟩, fun h => ⟨h.low_le, h.le_high⟩⟩
  · rw [Bool.and_eq_true, decide_eq_true_iff, decide_eq_true_iff, ← not_le, ← not_le,
      le_ratio_iff, ratio_le_iff, not_le, not_le]
    constructor
    · rintro ⟨hlow, hhigh⟩
      exact ⟨hlow.le, hhigh.le, fun h => absurd h (not_or.mpr ⟨hlow.ne', hhigh.ne⟩)⟩
    · rintro ⟨hlow, hhigh, hends⟩
      exact ⟨lt_of_le_of_ne hlow fun h => hclosed (hends (Or.inl h.symm)),
        lt_of_le_of_ne hhigh fun h => hclosed (hends (Or.inr h))⟩

/-- What is found on a grid lies within the bounds. -/
theorem admits_of_onGrid (h : b.onGrid k = some n) : b.Admits (n * 10 ^ k) := by
  rw [← contains_iff]
  rw [onGrid] at h
  dsimp only at h
  split at h
  · cases h
  · next hdown _ =>
    cases h
    exact (Bool.and_eq_true_iff.mp hdown).1
  · next hup =>
    cases h
    exact hup
  · next hdown hup =>
    split_ifs at h
    · cases h
      exact (Bool.and_eq_true_iff.mp hdown).1
    · cases h
      exact hup

/-- A grid finer than the distance to the upper bound has a hit. -/
theorem isSome_onGrid (hlow : b.low ≤ b.value)
    (hfine : (b.value : ℚ) * 2 ^ b.exponent + 10 ^ k < b.high * 2 ^ b.exponent) :
    (b.onGrid k).isSome = true := by
  have hcontains : b.contains ((ratio b.value b.exponent k).1 / (ratio b.value b.exponent k).2 + 1)
      k = true := by
    generalize hdown : (ratio b.value b.exponent k).1 / (ratio b.value b.exponent k).2 = down
    have hle : (down : ℚ) * 10 ^ k ≤ b.value * 2 ^ b.exponent :=
      le_ratio_iff.mp (hdown ▸ Nat.div_mul_le_self _ _)
    have hlt : (b.value : ℚ) * 2 ^ b.exponent < (down + 1 : Nat) * 10 ^ k := by
      refine lt_of_not_ge fun hge => (le_ratio_iff.mpr hge).not_gt ?_
      exact (Nat.div_lt_iff_lt_mul (ratio_den_pos _ _ _)).mp (hdown ▸ Nat.lt_succ_self down)
    have hup : ((down + 1 : Nat) : ℚ) * 10 ^ k < b.high * 2 ^ b.exponent := by
      push_cast
      linarith
    have hvalue : (b.low : ℚ) * 2 ^ b.exponent ≤ b.value * 2 ^ b.exponent := by gcongr
    rw [contains_iff]
    refine ⟨hvalue.trans hlt.le, hup.le, fun hends => ?_⟩
    exact absurd hends (not_or.mpr ⟨(hvalue.trans_lt hlt).ne', hup.ne⟩)
  rw [onGrid]
  dsimp only
  rw [hcontains]
  cases b.contains _ k && _ with
  | false => rfl
  | true =>
      dsimp only
      split <;> rfl

/-- What the search finds lies within the bounds, if a grid it comes to is fine
enough. -/
theorem admits_search (hlow : b.low ≤ b.value) {steps j : Nat} (hj : j < steps)
    (hfine : (b.value : ℚ) * 2 ^ b.exponent + 10 ^ (k - j) < b.high * 2 ^ b.exponent) :
    b.Admits (b.search steps k).value := by
  induction steps generalizing k j with
  | zero => exact absurd hj (Nat.not_lt_zero j)
  | succ steps ih =>
      rw [search]
      cases hgrid : b.onGrid k with
      | some n => exact admits_of_onGrid hgrid
      | none =>
          cases j with
          | zero =>
              have hsome := isSome_onGrid hlow (by simpa using hfine)
              rw [hgrid] at hsome
              cases hsome
          | succ j =>
              refine ih (Nat.lt_of_succ_lt_succ hj) ?_
              rwa [sub_sub, add_comm (1 : ℤ), ← Nat.cast_succ]

end Bounds

/-- Zeros that are moved into the exponent do not change the value. -/
theorem Positive.value_trimmed (steps : Nat) (d : Positive) : (d.trimmed steps).value = d.value := by
  induction steps generalizing d with
  | zero => rfl
  | succ steps ih =>
      rw [trimmed]
      split_ifs with hzero
      · have hdigits : (d.digits : ℚ) = (d.digits / 10 : Nat) * 10 := by
          exact_mod_cast (Nat.div_mul_cancel (Nat.dvd_of_mod_eq_zero hzero.1)).symm
        rw [ih, value, value, hdigits, zpow_add_one₀ (by norm_num)]
        ring
      · rfl

/-- The leading digit is found if the search goes down far enough. -/
theorem leading_le {b : Nat} {q : Int} {steps : Nat} {k : Int}
    (h : (10 : ℚ) ^ (k - steps) ≤ b * 2 ^ q) : (10 : ℚ) ^ leading b q steps k ≤ b * 2 ^ q := by
  induction steps generalizing k with
  | zero => simpa [leading] using h
  | succ steps ih =>
      rw [leading]
      dsimp only
      split_ifs with hfound
      · simpa using le_ratio_iff.mp ((one_mul _).trans_le hfound)
      · refine ih ?_
        rwa [sub_sub, add_comm (1 : ℤ), ← Nat.cast_succ]

end Decimal

/-! ## The places of doubles -/

namespace Binary64

/-- The place of a double among those of its sign, from zero on. -/
def place (x : Binary64) : Nat := x.biased * 2 ^ 52 + x.fraction

/-- The size of the double at a place in units of `2 ^ -1074`, also beyond the finite
ones. -/
def sizeAt (n : Nat) : Nat := if n < 2 ^ 52 then n else (n % 2 ^ 52 + 2 ^ 52) * 2 ^ (n / 2 ^ 52 - 1)

/-- The distance from the double at a place to the next one. -/
def gapAt (n : Nat) : Nat := 2 ^ (n / 2 ^ 52 - 1)

/-- A quarter of the smallest double. -/
def leastQuarter : ℚ := 2 ^ (-1076 : ℤ)

theorem leastQuarter_pos : 0 < leastQuarter := zpow_pos (by norm_num) _

/-- The real halfway between the doubles at a place and the next one. -/
def middleAt (n : Nat) : ℚ := 2 * (sizeAt n + sizeAt (n + 1) : Nat) * leastQuarter

theorem sizeAt_succ (n : Nat) : sizeAt (n + 1) = sizeAt n + gapAt n := by
  obtain hsmall | hlast | hnormal : n + 1 < 2 ^ 52 ∨ n + 1 = 2 ^ 52 ∨ 2 ^ 52 ≤ n := by omega
  · have hzero : n / 2 ^ 52 = 0 := by omega
    rw [sizeAt, if_pos hsmall, sizeAt, if_pos (by omega), gapAt, hzero]
    rfl
  · obtain rfl : n = 2 ^ 52 - 1 := by omega
    norm_num [sizeAt, gapAt]
  · obtain ⟨q, hq⟩ : ∃ q, n / 2 ^ 52 = q + 1 := ⟨n / 2 ^ 52 - 1, by omega⟩
    rw [sizeAt, if_neg (by omega), sizeAt, if_neg (by omega), gapAt, hq]
    by_cases hcarry : n % 2 ^ 52 + 1 < 2 ^ 52
    · have hdiv : (n + 1) / 2 ^ 52 = q + 1 := by omega
      have hmod : (n + 1) % 2 ^ 52 = n % 2 ^ 52 + 1 := by omega
      rw [hdiv, hmod]
      ring
    · -- The mantissa starts again and the exponent goes up by one.
      have hdiv : (n + 1) / 2 ^ 52 = q + 1 + 1 := by omega
      have hmod : (n + 1) % 2 ^ 52 = 0 := by omega
      have hfull : n % 2 ^ 52 = 2 ^ 52 - 1 := by omega
      rw [hdiv, hmod, hfull, Nat.add_sub_cancel, Nat.add_sub_cancel, pow_succ]
      omega

theorem sizeAt_strictMono : StrictMono sizeAt :=
  strictMono_nat_of_lt_succ fun n => by
    rw [sizeAt_succ]
    exact Nat.lt_add_of_pos_right (Nat.two_pow_pos _)

theorem middleAt_strictMono : StrictMono middleAt := by
  intro n n' h
  have hsum : sizeAt n + sizeAt (n + 1) < sizeAt n' + sizeAt (n' + 1) :=
    Nat.add_lt_add (sizeAt_strictMono h) (sizeAt_strictMono (Nat.succ_lt_succ h))
  have := leastQuarter_pos
  rw [middleAt, middleAt]
  gcongr

theorem middleAt_pos (n : Nat) : 0 < middleAt n := by
  have := leastQuarter_pos
  have hsize : 0 < sizeAt (n + 1) := (Nat.zero_le _).trans_lt (sizeAt_strictMono n.lt_succ_self)
  rw [middleAt]
  positivity

section Place

variable (x : Binary64)

theorem fraction_lt : x.fraction < 2 ^ 52 := Nat.mod_lt _ (Nat.two_pow_pos 52)

theorem place_div : x.place / 2 ^ 52 = x.biased := by
  have := x.fraction_lt
  rw [place]
  omega

theorem place_mod : x.place % 2 ^ 52 = x.fraction := by
  have := x.fraction_lt
  rw [place]
  omega

theorem mantissa_lt : x.mantissa < 2 ^ 53 := by
  have := x.fraction_lt
  rw [mantissa]
  simp only [Nat.pow_eq]
  split <;> omega

theorem mantissa_mod_two : x.mantissa % 2 = x.place % 2 := by
  rw [mantissa, place]
  simp only [Nat.pow_eq]
  split <;> omega

theorem place_eq_zero_iff : x.place = 0 ↔ x.mantissa = 0 := by
  rw [mantissa, place]
  simp only [Nat.pow_eq]
  split <;> omega

/-- The last place of a double is its distance to the next one. -/
theorem two_zpow_exponent : (2 : ℚ) ^ (x.exponent - 2) = gapAt x.place * leastQuarter := by
  have hexponent : x.exponent - 2 = ((x.biased - 1 : Nat) : ℤ) + -1076 := by
    rw [exponent]
    split <;> omega
  rw [hexponent, zpow_add₀ (by norm_num), zpow_natCast, gapAt, place_div, Nat.cast_pow,
    Nat.cast_ofNat, leastQuarter]

theorem mantissa_mul_gapAt : x.mantissa * gapAt x.place = sizeAt x.place := by
  rw [mantissa, gapAt, sizeAt, place_div, place_mod]
  have := x.place_div
  simp only [Nat.pow_eq]
  split_ifs with hbiased hsmall hsmall
  · rw [hbiased, place, hbiased]
    simp
  · omega
  · omega
  · rfl

end Place

/-- Doubles of one sign at one place are the same. -/
theorem eq_of_place {x y : Binary64} (hsign : x.isNegative = y.isNegative)
    (hplace : x.place = y.place) : x = y := by
  have hbits : x.bits.toNat = y.bits.toNat := by
    have hx := UInt64.toNat_lt x.bits
    have hy := UInt64.toNat_lt y.bits
    rw [isNegative, isNegative, decide_eq_decide] at hsign
    rw [place, place, biased, biased, fraction, fraction] at hplace
    simp only [Nat.pow_eq] at hsign hplace
    omega
  exact congrArg Binary64.mk (UInt64.toNat_inj.mp hbits)

end Binary64

namespace Decimal

open Binary64

variable {x y : Binary64}

theorem bounds_high (x : Binary64) :
    ((bounds x).high : ℚ) * 2 ^ (bounds x).exponent = middleAt x.place := by
  have hsize : (x.mantissa : ℚ) * gapAt x.place = sizeAt x.place := by
    exact_mod_cast x.mantissa_mul_gapAt
  show ((4 * x.mantissa + 2 : Nat) : ℚ) * 2 ^ (x.exponent - 2) = _
  rw [two_zpow_exponent, middleAt, sizeAt_succ]
  push_cast
  rw [← hsize]
  ring

theorem bounds_low (hx : x.mantissa ≠ 0) :
    ((bounds x).low : ℚ) * 2 ^ (bounds x).exponent = middleAt (x.place - 1) := by
  obtain ⟨n, hn⟩ : ∃ n, x.place = n + 1 :=
    Nat.exists_eq_succ_of_ne_zero fun h => hx (x.place_eq_zero_iff.mp h)
  have hsize : x.mantissa * gapAt (n + 1) = sizeAt n + gapAt n := by
    rw [← sizeAt_succ, ← hn, mantissa_mul_gapAt]
  have hdiv := x.place_div
  have hmod := x.place_mod
  have hlow : (bounds x).low * gapAt (n + 1) = 2 * (sizeAt n + sizeAt (n + 1)) := by
    rw [sizeAt_succ]
    show (if _ then _ else _ : Nat) * _ = _
    split_ifs with hpower
    · -- Below a power of two the doubles are half as far apart.
      have hgap : gapAt (n + 1) = 2 * gapAt n := by
        obtain ⟨q, hq⟩ : ∃ q, n / 2 ^ 52 = q + 1 := ⟨n / 2 ^ 52 - 1, by omega⟩
        have hq' : (n + 1) / 2 ^ 52 = q + 1 + 1 := by omega
        rw [gapAt, gapAt, hq, hq', Nat.add_sub_cancel, Nat.add_sub_cancel, pow_succ']
      rw [Nat.sub_mul, mul_assoc, hsize, hgap]
      omega
    · have hgap : gapAt (n + 1) = gapAt n := by
        have hq : (n + 1) / 2 ^ 52 - 1 = n / 2 ^ 52 - 1 := by omega
        rw [gapAt, gapAt, hq]
      rw [Nat.sub_mul, mul_assoc, hsize, hgap]
      omega
  show ((bounds x).low : ℚ) * 2 ^ (x.exponent - 2) = _
  rw [two_zpow_exponent, hn, ← mul_assoc, Nat.add_sub_cancel, middleAt]
  congr 1
  exact_mod_cast hlow

/-- Only positive reals lie within bounds. -/
theorem pos_of_admits {v : ℚ} (hx : x.mantissa ≠ 0) (h : (bounds x).Admits v) : 0 < v := by
  have hlow := h.low_le
  rw [bounds_low hx] at hlow
  exact (middleAt_pos _).trans_le hlow

theorem bounds_closed : (bounds x).closed = true ↔ x.place % 2 = 0 := by
  rw [← mantissa_mod_two]
  exact decide_eq_true_iff

/-- No real rounds to two doubles of one sign: bounds that meet belong to neighbours,
and only one of these takes its bounds in. -/
theorem place_eq_of_admits {v : ℚ} (hx : x.mantissa ≠ 0) (hy : y.mantissa ≠ 0)
    (hvx : (bounds x).Admits v) (hvy : (bounds y).Admits v) : x.place = y.place := by
  have hnotlt {x y : Binary64} (hy : y.mantissa ≠ 0) (hvx : (bounds x).Admits v)
      (hvy : (bounds y).Admits v) : ¬ x.place < y.place := by
    intro hlt
    have hhigh := hvx.le_high
    have hlow := hvy.low_le
    rw [bounds_high] at hhigh
    rw [bounds_low hy] at hlow
    have hmiddle : middleAt x.place ≤ middleAt (y.place - 1) :=
      middleAt_strictMono.monotone (Nat.le_sub_one_of_lt hlt)
    have hplace : x.place = y.place - 1 :=
      middleAt_strictMono.injective (le_antisymm hmiddle (hlow.trans hhigh))
    have hxclosed := bounds_closed.mp (hvx.closed_of_eq (Or.inr (by
      rw [bounds_high]
      exact le_antisymm hhigh (hmiddle.trans hlow))))
    have hyclosed := bounds_closed.mp (hvy.closed_of_eq (Or.inl (by
      rw [bounds_low hy]
      exact le_antisymm (hhigh.trans hmiddle) hlow)))
    omega
  exact le_antisymm (not_lt.mp (hnotlt hx hvy hvx)) (not_lt.mp (hnotlt hy hvx hvy))

/-- The search for a leading digit ends below the smallest double. -/
theorem ten_zpow_le_leastQuarter : (10 : ℚ) ^ ((310 : ℤ) - (700 : Nat)) ≤ leastQuarter := by
  have hpow : (2 : ℚ) ^ 1076 ≤ 10 ^ 390 :=
    calc (2 : ℚ) ^ 1076 ≤ 2 ^ (3 * 390) := pow_le_pow_right₀ (by norm_num) (by norm_num)
      _ = (2 ^ 3) ^ 390 := pow_mul 2 3 390
      _ ≤ 10 ^ 390 := pow_le_pow_left₀ (by norm_num) (by norm_num) 390
  exact inv_anti₀ (pow_pos (by norm_num) _) hpow

/-- The shortest decimal of a double lies within its bounds. -/
theorem shortest_admitted (hx : x.mantissa ≠ 0) : (bounds x).Admits (shortest x).value := by
  have hmantissa : (1 : ℚ) ≤ x.mantissa := by exact_mod_cast Nat.one_le_iff_ne_zero.mpr hx
  have hmantissa' : (x.mantissa : ℚ) < 2 ^ 53 := by exact_mod_cast x.mantissa_lt
  have hlow : (bounds x).low ≤ (bounds x).value := by
    rw [bounds]
    split <;> exact Nat.sub_le _ _
  have hvalue : ((bounds x).value : ℚ) = 4 * x.mantissa := Nat.cast_mul 4 _
  have hhigh : ((bounds x).high : ℚ) = 4 * x.mantissa + 2 :=
    (Nat.cast_add _ 2).trans (congrArg (· + 2) hvalue)
  have hunit : (0 : ℚ) < 2 ^ (bounds x).exponent := zpow_pos (by norm_num) _
  have htop : (10 : ℚ) ^ leading (bounds x).value (bounds x).exponent 700 310 ≤
      (bounds x).value * 2 ^ (bounds x).exponent := by
    have hleast : leastQuarter ≤ 2 ^ (bounds x).exponent := by
      refine zpow_le_zpow_right₀ (by norm_num) ?_
      show -1076 ≤ x.exponent - 2
      rw [exponent]
      split <;> omega
    refine leading_le (ten_zpow_le_leastQuarter.trans (hleast.trans ?_))
    rw [hvalue]
    exact le_mul_of_one_le_left hunit.le (by linarith)
  rw [shortest, Positive.value_trimmed]
  -- The grid seventeen digits below the leading one.
  refine Bounds.admits_search hlow (j := 18) (by norm_num) ?_
  generalize leading (bounds x).value (bounds x).exponent 700 310 = top at htop
  have hgrid : (10 : ℚ) ^ (top + 1 - (18 : Nat)) = 10 ^ top / 10 ^ 17 := by
    rw [← zpow_natCast, ← zpow_sub₀ (by norm_num)]
    congr 1
    push_cast
    ring
  rw [hvalue] at htop ⊢
  rw [hgrid, hhigh]
  generalize (2 : ℚ) ^ (bounds x).exponent = u at *
  have : (10 : ℚ) ^ top < 4 * 2 ^ 53 * u := htop.trans_lt (by gcongr)
  linarith

end Decimal

end SchemaGraph

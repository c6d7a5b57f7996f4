import SchemaGraph.Proofs.Decimal.Shortest

/-!
# What the bits of a number stand for

The value of the bits of a floating-point number, read by the widths of its format alone
(`FloatFormat.value`): a NaN, or infinite or a rational number with a sign.

Doubles other than NaNs (`Binary64.isNaN_iff`) are told apart by what they stand for
(`Binary64.eq_of_value`).  NaNs are not told apart at all.
-/

namespace SchemaGraph

/-- What a floating-point number stands for.  There is a zero of either sign. -/
inductive FloatValue where
  | nan
  | infinite (negative : Bool)
  | finite (negative : Bool) (size : ℚ)
  deriving DecidableEq

/-- A binary format: a bit for the sign, then the exponent and then the fraction. -/
structure FloatFormat where
  exponentBits : Nat
  fractionBits : Nat

namespace FloatFormat

/-- The format of 32 bits. -/
def binary32 : FloatFormat := ⟨8, 23⟩

/-- The format of 64 bits. -/
def binary64 : FloatFormat := ⟨11, 52⟩

variable (F : FloatFormat)

/-- The smallest positive number. -/
def least : ℚ := 2 ^ ((2 : ℤ) - 2 ^ (F.exponentBits - 1) - F.fractionBits)

/-- The size of a finite number in units of the smallest.  Unless the exponent is zero, a one
that is not written stands before the fraction. -/
def units (biased fraction : Nat) : Nat :=
  if biased = 0 then fraction else (2 ^ F.fractionBits + fraction) * 2 ^ (biased - 1)

/-- What the three parts of a number stand for.  The largest exponent is not that of a finite
one. -/
def valueOf (negative : Bool) (biased fraction : Nat) : FloatValue :=
  if biased < 2 ^ F.exponentBits - 1 then .finite negative (F.units biased fraction * F.least)
  else if fraction = 0 then .infinite negative
  else .nan

/-- What bits stand for. -/
def value (bits : Nat) : FloatValue :=
  F.valueOf (decide (2 ^ (F.exponentBits + F.fractionBits) ≤ bits))
    (bits / 2 ^ F.fractionBits % 2 ^ F.exponentBits) (bits % 2 ^ F.fractionBits)

theorem least_pos : 0 < F.least := zpow_pos (by norm_num) _

variable {F} {biased : Nat}

theorem valueOf_finite (h : biased < 2 ^ F.exponentBits - 1) (negative : Bool) (fraction : Nat) :
    F.valueOf negative biased fraction = .finite negative (F.units biased fraction * F.least) :=
  if_pos h

theorem valueOf_last (h : ¬ biased < 2 ^ F.exponentBits - 1) (negative : Bool) (fraction : Nat) :
    F.valueOf negative biased fraction = if fraction = 0 then .infinite negative else .nan :=
  if_neg h

end FloatFormat

namespace Binary64

open FloatFormat (binary64)

variable {x y : Binary64}

theorem value_bits (x : Binary64) :
    binary64.value x.bits.toNat = binary64.valueOf x.isNegative x.biased x.fraction := rfl

theorem units_eq_sizeAt (x : Binary64) : binary64.units x.biased x.fraction = sizeAt x.place := by
  have hdiv := x.place_div
  rw [FloatFormat.units, sizeAt, place_div, place_mod]
  split_ifs with hbiased hsmall hsmall
  · rw [place, hbiased, Nat.zero_mul, Nat.zero_add]
  · omega
  · omega
  · rw [Nat.add_comm]
    rfl

theorem biased_lt (x : Binary64) : x.biased < 2048 := Nat.mod_lt _ (Nat.two_pow_pos 11)

/-- The doubles that stand for no number are the NaNs. -/
theorem isNaN_iff (x : Binary64) : x.isNaN = true ↔ binary64.value x.bits.toNat = .nan := by
  have hlast : x.biased = 2047 ↔ ¬ x.biased < 2 ^ 11 - 1 := by
    have := x.biased_lt
    omega
  rw [isNaN, Bool.and_eq_true, beq_iff_eq, bne_iff_ne, hlast, value_bits]
  by_cases hfinite : x.biased < 2 ^ 11 - 1
  · rw [FloatFormat.valueOf_finite hfinite]
    exact iff_of_false (fun h => h.1 hfinite) FloatValue.noConfusion
  · rw [FloatFormat.valueOf_last hfinite]
    split_ifs with hzero
    · simp [hzero]
    · exact iff_of_true ⟨hfinite, hzero⟩ rfl

/-- What a double stands for, by its parts. -/
theorem value_cases (x : Binary64) :
    binary64.value x.bits.toNat = .finite x.isNegative (sizeAt x.place * binary64.least) ∨
      (x.place = 2047 * 2 ^ 52 ∧ binary64.value x.bits.toNat = .infinite x.isNegative) ∨
      binary64.value x.bits.toNat = .nan := by
  have hbiased := x.biased_lt
  by_cases hfinite : x.biased < 2 ^ 11 - 1
  · rw [value_bits, FloatFormat.valueOf_finite hfinite, units_eq_sizeAt]
    exact Or.inl rfl
  · rw [value_bits, FloatFormat.valueOf_last hfinite]
    split_ifs with hzero
    · refine Or.inr (Or.inl ⟨?_, rfl⟩)
      rw [place, hzero]
      omega
    · exact Or.inr (Or.inr rfl)

/-- Doubles that stand for the same number are the same, unless they stand for none. -/
theorem eq_of_value (hnumber : binary64.value x.bits.toNat ≠ .nan)
    (h : binary64.value x.bits.toNat = binary64.value y.bits.toNat) : x = y := by
  have hnumber' := h ▸ hnumber
  -- The size tells the places of finite numbers apart, and the infinite ones have one place.
  obtain hx | ⟨hplace, hx⟩ | hx := x.value_cases
  · obtain hy | ⟨-, hy⟩ | hy := y.value_cases
    · obtain ⟨hsign, hsize⟩ := FloatValue.finite.inj (hx.symm.trans (h.trans hy))
      have hunits := mul_right_cancel₀ binary64.least_pos.ne' hsize
      exact eq_of_place hsign (sizeAt_strictMono.injective (Nat.cast_injective hunits))
    · cases hx.symm.trans (h.trans hy)
    · exact absurd hy hnumber'
  · obtain hy | ⟨hplace', hy⟩ | hy := y.value_cases
    · cases hx.symm.trans (h.trans hy)
    · exact eq_of_place (FloatValue.infinite.inj (hx.symm.trans (h.trans hy)))
        (hplace.trans hplace'.symm)
    · exact absurd hy hnumber'
  · exact absurd hx hnumber

end Binary64

end SchemaGraph

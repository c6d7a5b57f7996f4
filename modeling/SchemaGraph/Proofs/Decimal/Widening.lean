import SchemaGraph.Proofs.Decimal.Format

/-!
# Widening is exact

The double that 32 bits are widened to stands for what they stand for
(`value_ofBinary32`): a number with its sign and its size, which a double has room for, an
infinity with its sign, and a NaN if they are one.
-/

namespace SchemaGraph.Binary64

open FloatFormat (binary32 binary64)

/-! ## The parts of an assembled number -/

section Assemble

variable {negative : Bool} {exponentBits fractionBits : Nat}

theorem toNat_assemble (he : exponentBits < 2 ^ 11) (hf : fractionBits < 2 ^ 52) :
    (assemble negative exponentBits fractionBits).bits.toNat =
      (if negative then 2 ^ 63 else 0) + exponentBits * 2 ^ 52 + fractionBits := by
  rw [assemble, UInt64.toNat_ofNat']
  simp only [Nat.pow_eq]
  split <;> omega

theorem biased_assemble (he : exponentBits < 2 ^ 11) (hf : fractionBits < 2 ^ 52) :
    (assemble negative exponentBits fractionBits).biased = exponentBits := by
  rw [biased, toNat_assemble he hf]
  simp only [Nat.pow_eq]
  split <;> omega

theorem fraction_assemble (he : exponentBits < 2 ^ 11) (hf : fractionBits < 2 ^ 52) :
    (assemble negative exponentBits fractionBits).fraction = fractionBits := by
  rw [fraction, toNat_assemble he hf]
  simp only [Nat.pow_eq]
  split <;> omega

theorem isNegative_assemble (he : exponentBits < 2 ^ 11) (hf : fractionBits < 2 ^ 52) :
    (assemble negative exponentBits fractionBits).isNegative = negative := by
  rw [isNegative, toNat_assemble he hf]
  simp only [Nat.pow_eq]
  cases negative <;> simp <;> omega

theorem value_assemble (he : exponentBits < 2 ^ 11) (hf : fractionBits < 2 ^ 52) :
    binary64.value (assemble negative exponentBits fractionBits).bits.toNat =
      binary64.valueOf negative exponentBits fractionBits := by
  rw [value_bits, isNegative_assemble he hf, biased_assemble he hf, fraction_assemble he hf]

end Assemble

/-! ## 32-bit numbers -/

/-- The eight exponent bits of a 32-bit number. -/
def biased32 (bits : UInt32) : Nat := bits.toNat / 2 ^ 23 % 2 ^ 8

/-- The twenty-three fraction bits of a 32-bit number. -/
def fraction32 (bits : UInt32) : Nat := bits.toNat % 2 ^ 23

variable {bits : UInt32}

theorem value_bits32 (bits : UInt32) : binary32.value bits.toNat =
    binary32.valueOf (decide (2 ^ 31 ≤ bits.toNat)) (biased32 bits) (fraction32 bits) := rfl

theorem ofBinary32_of_normal (hzero : biased32 bits ≠ 0) (hfinite : biased32 bits ≠ 255) :
    ofBinary32 bits =
      assemble (decide (2 ^ 31 ≤ bits.toNat)) (biased32 bits + 896) (fraction32 bits * 2 ^ 29) :=
  (if_neg hfinite).trans (if_neg hzero)

theorem ofBinary32_of_zero (hzero : biased32 bits = 0) (hfraction : fraction32 bits = 0) :
    ofBinary32 bits = assemble (decide (2 ^ 31 ≤ bits.toNat)) 0 0 := by
  have hfinite : biased32 bits ≠ 255 := by omega
  exact (if_neg hfinite).trans ((if_pos hzero).trans (if_pos hfraction))

theorem ofBinary32_of_small (hzero : biased32 bits = 0) (hfraction : fraction32 bits ≠ 0) :
    ofBinary32 bits =
      assemble (decide (2 ^ 31 ≤ bits.toNat)) (874 + Nat.log2 (fraction32 bits))
        ((fraction32 bits - 2 ^ Nat.log2 (fraction32 bits)) *
          2 ^ (52 - Nat.log2 (fraction32 bits))) := by
  have hfinite : biased32 bits ≠ 255 := by omega
  exact (if_neg hfinite).trans ((if_pos hzero).trans (if_neg hfraction))

theorem ofBinary32_of_last (hlast : biased32 bits = 255) :
    ofBinary32 bits = assemble (decide (2 ^ 31 ≤ bits.toNat)) 2047
      (fraction32 bits * 2 ^ 29 +
        if fraction32 bits = 0 then 0 else if fraction32 bits < 2 ^ 22 then 2 ^ 51 else 0) :=
  if_pos hlast

/-- The smallest number of 32 bits is this power of two times the smallest binary64. -/
def shift32 : Nat := 925

theorem least_binary32 : binary32.least = 2 ^ shift32 * binary64.least := by
  rw [FloatFormat.least, FloatFormat.least, ← zpow_natCast, ← zpow_add₀ (by norm_num)]
  rfl

/-- A finite number is that of 32 bits, if it is of the same size in the units of each. -/
theorem value_assemble_eq {negative : Bool} {exponentBits fractionBits biased fraction : Nat}
    (he : exponentBits < 2047) (hf : fractionBits < 2 ^ 52) (hbiased : biased < 255)
    (hunits : binary64.units exponentBits fractionBits = binary32.units biased fraction * 2 ^ shift32) :
    binary64.value (assemble negative exponentBits fractionBits).bits.toNat =
      binary32.valueOf negative biased fraction := by
  rw [value_assemble (by omega) hf, FloatFormat.valueOf_finite he,
    FloatFormat.valueOf_finite hbiased, hunits, least_binary32, Nat.cast_mul, mul_assoc,
    Nat.cast_pow, Nat.cast_ofNat]

/-- Numbers below the normal ones of 32 bits are normal as doubles. -/
theorem value_of_small (hzero : biased32 bits = 0) (hnone : fraction32 bits ≠ 0) :
    binary64.value (ofBinary32 bits).bits.toNat = binary32.value bits.toNat := by
  -- The highest bit of the fraction becomes the leading one, which is not written.
  have hfraction : fraction32 bits < 2 ^ 23 := Nat.mod_lt _ (by decide)
  obtain ⟨hlow, hhigh⟩ : 2 ^ (fraction32 bits).log2 ≤ fraction32 bits ∧
      fraction32 bits < 2 ^ ((fraction32 bits).log2 + 1) :=
    ⟨Nat.log2_self_le hnone, Nat.lt_log2_self⟩
  have htop : (fraction32 bits).log2 < 23 := (Nat.log2_lt hnone).mpr hfraction
  rw [ofBinary32_of_small hzero hnone, value_bits32, hzero]
  generalize (fraction32 bits).log2 = top at hlow hhigh htop
  generalize fraction32 bits = fraction at hlow hhigh
  have hpow : 2 ^ top * 2 ^ (52 - top) = 2 ^ 52 := by
    rw [← Nat.pow_add, Nat.add_sub_cancel' (by omega)]
  have hlead : 2 ^ 52 + (fraction - 2 ^ top) * 2 ^ (52 - top) = fraction * 2 ^ (52 - top) := by
    rw [← hpow, ← Nat.add_mul, Nat.add_sub_cancel' hlow]
  refine value_assemble_eq (by omega) ?_ (by omega) ?_
  · rw [← hpow]
    exact Nat.mul_lt_mul_of_pos_right (by rw [Nat.pow_succ] at hhigh; omega) (Nat.two_pow_pos _)
  · have hpower : 52 - top + (874 + top - 1) = shift32 := by rw [shift32]; omega
    calc binary64.units (874 + top) ((fraction - 2 ^ top) * 2 ^ (52 - top))
        = (2 ^ 52 + (fraction - 2 ^ top) * 2 ^ (52 - top)) * 2 ^ (874 + top - 1) :=
          if_neg (by omega)
      _ = fraction * 2 ^ shift32 := by rw [hlead, Nat.mul_assoc, ← Nat.pow_add, hpower]
      _ = binary32.units 0 fraction * 2 ^ shift32 := congrArg (· * 2 ^ shift32) (if_pos rfl).symm

/-- Normal numbers get a larger exponent and zeros after the fraction. -/
theorem value_of_normal (hzero : biased32 bits ≠ 0) (hfinite : biased32 bits < 255) :
    binary64.value (ofBinary32 bits).bits.toNat = binary32.value bits.toNat := by
  have hfraction : fraction32 bits < 2 ^ 23 := Nat.mod_lt _ (by decide)
  rw [ofBinary32_of_normal hzero (by omega), value_bits32]
  refine value_assemble_eq (by omega) (by omega) hfinite ?_
  have hlead : 2 ^ 52 + fraction32 bits * 2 ^ 29 = (2 ^ 23 + fraction32 bits) * 2 ^ 29 := by omega
  have hpower : 29 + (biased32 bits + 896 - 1) = biased32 bits - 1 + shift32 := by
    rw [shift32]
    omega
  calc binary64.units (biased32 bits + 896) (fraction32 bits * 2 ^ 29)
      = (2 ^ 52 + fraction32 bits * 2 ^ 29) * 2 ^ (biased32 bits + 896 - 1) := if_neg (by omega)
    _ = (2 ^ 23 + fraction32 bits) * 2 ^ (biased32 bits - 1 + shift32) := by
      rw [hlead, Nat.mul_assoc, ← Nat.pow_add, hpower]
    _ = (2 ^ 23 + fraction32 bits) * 2 ^ (biased32 bits - 1) * 2 ^ shift32 := by
      rw [Nat.pow_add, Nat.mul_assoc]
    _ = binary32.units (biased32 bits) (fraction32 bits) * 2 ^ shift32 :=
      congrArg (· * 2 ^ shift32) (if_neg hzero).symm

/-- Infinities stay infinite, and a NaN keeps a fraction other than zero. -/
theorem value_of_last (hlast : biased32 bits = 255) :
    binary64.value (ofBinary32 bits).bits.toNat = binary32.value bits.toNat := by
  have hfraction : fraction32 bits < 2 ^ 23 := Nat.mod_lt _ (by decide)
  rw [ofBinary32_of_last hlast, value_bits32, hlast]
  by_cases hzero : fraction32 bits = 0
  · rw [hzero, value_assemble (by decide) (by decide)]
    rfl
  · have hsmall : fraction32 bits * 2 ^ 29 +
        (if fraction32 bits = 0 then 0 else if fraction32 bits < 2 ^ 22 then 2 ^ 51 else 0) <
          2 ^ 52 := by
      split_ifs <;> omega
    have hkept : fraction32 bits * 2 ^ 29 +
        (if fraction32 bits = 0 then 0 else if fraction32 bits < 2 ^ 22 then 2 ^ 51 else 0) ≠ 0 := by
      omega
    rw [value_assemble (by decide) hsmall, FloatFormat.valueOf_last (by decide), if_neg hkept,
      FloatFormat.valueOf_last (by decide), if_neg hzero]

/-- Widening changes nothing of what bits stand for. -/
theorem value_ofBinary32 (bits : UInt32) :
    binary64.value (ofBinary32 bits).bits.toNat = binary32.value bits.toNat := by
  have hbiased : biased32 bits < 256 := Nat.mod_lt _ (by decide)
  by_cases hlast : biased32 bits = 255
  · exact value_of_last hlast
  by_cases hzero : biased32 bits = 0
  · by_cases hnone : fraction32 bits = 0
    · rw [ofBinary32_of_zero hzero hnone, value_bits32, hzero, hnone]
      refine value_assemble_eq (by decide) (by decide) (by decide) ?_
      rw [FloatFormat.units, FloatFormat.units, if_pos rfl, if_pos rfl, Nat.zero_mul]
    · exact value_of_small hzero hnone
  · exact value_of_normal hzero (by omega)

/-- One and a half, in 32 bits and widened. -/
example : binary32.value 0x3FC00000 = .finite false (3 / 2) ∧
    binary64.value (ofBinary32 0x3FC00000).bits.toNat = .finite false (3 / 2) := by
  decide +kernel

end SchemaGraph.Binary64

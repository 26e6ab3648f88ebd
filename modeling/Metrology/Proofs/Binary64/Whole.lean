import Metrology.Proofs.Binary64.Arithmetic

/-!
# Whole numbers at a power of two

A whole number at a power of two is rounded to the nearest number, and to itself if it has at most
53 binary digits and its power is within the range. From one on a number has all of its 53 digits.
-/

namespace Metrology.Binary64

open Float.Model
open Float.Model.UnpackedFloat hiding pack unpack

variable {sign : Sign} {significand : ℕ} {exponent : ℤ}

/-- A whole number at a power of two is rounded, whatever its digits. -/
theorem isRounding_round (pos : 0 < significand) (exponent : ℤ) :
    IsRounding sign (significand * 2 ^ exponent)
      (UnpackedFloat.round .binary64 sign significand exponent) := by
  have isPositive := value_pos pos exponent
  obtain ⟨shift, isShift⟩ : ∃ shift : ℕ,
      (exponent - Format.binary64.targetExponent (totalExponent significand exponent)).toNat =
        shift := ⟨_, rfl⟩
  unfold UnpackedFloat.round decreaseExponent
  dsimp only
  rw [isShift]
  apply isRounding_roundWithAccuracy isPositive
  · have shifted : (significand * 2 ^ exponent : ℚ) / 2 ^ (exponent - shift) =
        (significand <<< shift : ℕ) := by
      rw [zpow_sub₀ (by norm_num), zpow_natCast, Nat.shiftLeft_eq]
      have := (two_zpow_pos exponent).ne'
      push_cast
      field_simp
    rw [shifted]
    exact .of_exact _
  · have atLeast := (two_zpow_le_iff isPositive _).mp (le_value pos exponent)
    rw [targetExponent_eq, totalExponent] at isShift
    rw [quantum]
    omega

/-- A whole number with at most 53 digits at a power of two within the range is a number. -/
theorem exists_canonical (pos : 0 < significand) (small : significand < 2 ^ 53)
    (atLeast : -1074 ≤ exponent) :
    ∃ (other : ℕ) (power : ℤ), 0 < other ∧ Canonical other power ∧ power ≤ exponent ∧
      (other : ℚ) * 2 ^ power = significand * 2 ^ exponent := by
  have log2Le : significand.log2 ≤ 52 := by
    have := (Nat.log2_lt pos.ne').mpr small
    omega
  obtain ⟨shift, isShift⟩ : ∃ shift : ℕ,
      (shift : ℤ) = min (52 - significand.log2 : ℤ) (exponent + 1074) :=
    ⟨(min (52 - significand.log2 : ℤ) (exponent + 1074)).toNat, by omega⟩
  refine ⟨significand * 2 ^ shift, exponent - shift, by positivity, ⟨?_, by omega, ?_⟩,
    by omega, ?_⟩
  · have below : significand < 2 ^ (significand.log2 + 1) := Nat.lt_log2_self
    calc significand * 2 ^ shift < 2 ^ (significand.log2 + 1) * 2 ^ shift :=
          Nat.mul_lt_mul_of_pos_right below (by positivity)
      _ = 2 ^ (significand.log2 + 1 + shift) := (pow_add 2 _ _).symm
      _ ≤ 2 ^ 53 := Nat.pow_le_pow_right (by norm_num) (by omega)
  · by_cases isBottom : exponent - shift = -1074
    · exact .inr isBottom
    · left
      have above : 2 ^ significand.log2 ≤ significand := Nat.log2_self_le pos.ne'
      calc 2 ^ 52 = 2 ^ (significand.log2 + shift) := by congr 1; omega
        _ = 2 ^ significand.log2 * 2 ^ shift := pow_add 2 _ _
        _ ≤ significand * 2 ^ shift := Nat.mul_le_mul_right _ above
  · rw [zpow_sub₀ (by norm_num), zpow_natCast]
    push_cast
    field_simp

/-- Rounding such a whole number changes nothing. -/
theorem unpacked_packed_round (pos : 0 < significand) (small : significand < 2 ^ 53)
    (atLeast : -1074 ≤ exponent) (atMost : exponent ≤ 971) :
    ∃ other power otherPos,
      unpacked (packed (UnpackedFloat.round .binary64 sign significand exponent)) =
        .finite sign other power otherPos ∧
      (other : ℚ) * 2 ^ power = significand * 2 ^ exponent := by
  rcases exists_canonical pos small atLeast with ⟨other, power, otherPos, canonical, powerLe, value⟩
  have isRounding := @isRounding_round sign significand pos exponent
  rw [← value] at isRounding
  rw [isRounding.unique (.self canonical otherPos)]
  exact ⟨other, power, otherPos, unpacked_packed (.finite canonical (by omega)), value⟩

/-- A number from one on has all of its digits. -/
theorem normal_of_one_le (canonical : Canonical significand exponent) (pos : 0 < significand)
    (atLeastOne : 1 ≤ (significand : ℚ) * 2 ^ exponent) : 2 ^ 52 ≤ significand := by
  refine canonical.normal.resolve_right fun isBottom => ?_
  have isQuantum := quantum_value canonical pos
  have atLeast := (two_zpow_le_iff (value_pos pos exponent) 0).mp (by rwa [zpow_zero])
  rw [quantum] at isQuantum
  omega

end Metrology.Binary64

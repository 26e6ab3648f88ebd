import Mathlib.Data.Int.Log
import Mathlib.Data.Rat.Floor
import Mathlib.Tactic.Linarith
import Mathlib.Tactic.NormNum
import Metrology.Proofs.Binary64.Encoding

/-!
# Rounding to the nearest binary64 number

What it means for the parts of a number to be the rounding of an exact magnitude. A positive number
is rounded to a multiple of its quantum, which is the place of the last of 53 binary digits but not
below the least power of two that a number can have. The nearest multiple is taken, of two that are
equally near the even one. The range of powers is not bounded above here: a magnitude from
`overflowBound` on is rounded to parts that are packed as an infinity.
-/

namespace Metrology.Binary64

open Float.Model
open Float.Model.UnpackedFloat (Sign)

/-- Whether a natural number is the nearest one, even if a second is as near. -/
def IsNearest (exact : ℚ) (nearest : ℕ) : Prop :=
  |exact - nearest| < 1 / 2 ∨ |exact - nearest| = 1 / 2 ∧ nearest % 2 = 0

/-- The power of two that a positive number is rounded to a multiple of. -/
def quantum (exact : ℚ) : ℤ :=
  max (Int.log 2 exact - 52) (-1074)

/-- Whether parts of a given sign are what a positive number is rounded to. -/
inductive IsRounding (sign : Sign) (exact : ℚ) : UnpackedFloat → Prop where
  | zero (nearest : IsNearest (exact / 2 ^ quantum exact) 0) : IsRounding sign exact (.zero sign)
  | finite {multiple significand : ℕ} {exponent : ℤ} {pos : 0 < significand}
      (nearest : IsNearest (exact / 2 ^ quantum exact) multiple)
      (canonical : Canonical significand exponent)
      (value : (significand : ℚ) * 2 ^ exponent = multiple * 2 ^ quantum exact) :
      IsRounding sign exact (.finite sign significand exponent pos)

/-- Half of the last place of the greatest finite number. -/
def halfTopPlace : ℚ :=
  2 ^ (970 : ℤ)

/-- The least magnitude that is rounded past the greatest finite number. -/
def overflowBound : ℚ :=
  (2 ^ 54 - 1) * halfTopPlace

variable {exact : ℚ} {nearest other significand otherSignificand : ℕ}
  {exponent otherExponent : ℤ} {sign : Sign} {parts others : UnpackedFloat}

theorem IsNearest.abs_sub_le (isNearest : IsNearest exact nearest) :
    |exact - nearest| ≤ 1 / 2 := by
  rcases isNearest with closer | ⟨half, _⟩
  · exact closer.le
  · exact half.le

theorem IsNearest.not_succ (isNearest : IsNearest exact nearest) :
    ¬IsNearest exact (nearest + 1) := by
  intro alsoNearest
  -- Both are half away, and of two neighbours only one is even.
  have near := abs_le.mp isNearest.abs_sub_le
  have alsoNear := abs_le.mp alsoNearest.abs_sub_le
  push_cast at alsoNear
  have half : exact - nearest = 1 / 2 := by linarith
  have alsoHalf : exact - (nearest + 1 : ℕ) = -(1 / 2) := by
    push_cast
    linarith
  rcases isNearest with closer | ⟨_, isEven⟩
  · rw [half] at closer
    norm_num at closer
  · rcases alsoNearest with closer | ⟨_, alsoEven⟩
    · rw [alsoHalf] at closer
      norm_num at closer
    · omega

theorem IsNearest.le (isNearest : IsNearest exact nearest) (alsoNearest : IsNearest exact other) :
    nearest ≤ other := by
  have near := abs_le.mp isNearest.abs_sub_le
  have alsoNear := abs_le.mp alsoNearest.abs_sub_le
  by_contra above
  have atMost : (nearest : ℚ) ≤ (other + 1 : ℕ) := by
    push_cast
    linarith
  have isSucc : nearest = other + 1 := by
    have := Nat.cast_le.mp atMost
    omega
  exact alsoNearest.not_succ (isSucc ▸ isNearest)

theorem IsNearest.unique (isNearest : IsNearest exact nearest)
    (alsoNearest : IsNearest exact other) : nearest = other :=
  le_antisymm (isNearest.le alsoNearest) (alsoNearest.le isNearest)

theorem isNearest_natCast (number : ℕ) : IsNearest number number := by
  left
  norm_num

theorem two_zpow_pos (power : ℤ) : (0 : ℚ) < 2 ^ power :=
  zpow_pos (by norm_num) power

theorem IsNearest.le_of_lt (isNearest : IsNearest exact nearest) {bound : ℕ}
    (below : exact < bound) : nearest ≤ bound := by
  have near := abs_le.mp isNearest.abs_sub_le
  have atMost : (nearest : ℚ) < (bound + 1 : ℕ) := by
    push_cast
    linarith
  have := Nat.cast_lt.mp atMost
  omega

theorem IsNearest.le_of_le (isNearest : IsNearest exact nearest) {bound : ℕ}
    (above : bound ≤ exact) : bound ≤ nearest := by
  have near := abs_le.mp isNearest.abs_sub_le
  have atLeast : (bound : ℚ) < (nearest + 1 : ℕ) := by
    push_cast
    linarith
  have := Nat.cast_lt.mp atLeast
  omega

/-- What is half way below an even number is not rounded below it. -/
theorem IsNearest.le_of_half_below (isNearest : IsNearest exact nearest) {bound : ℕ}
    (isEven : bound % 2 = 0) (above : bound - 1 / 2 ≤ exact) : bound ≤ nearest := by
  by_contra below
  have nearestLe : ((nearest + 1 : ℕ) : ℚ) ≤ bound := by
    exact_mod_cast Nat.succ_le_of_lt (not_le.mp below)
  push_cast at nearestLe
  have distance : |exact - nearest| = exact - nearest := abs_of_nonneg (by linarith)
  rcases isNearest with closer | ⟨half, nearestEven⟩
  · linarith
  · have isBelow : bound ≤ nearest + 1 := by
      have boundLe : (bound : ℚ) ≤ (nearest + 1 : ℕ) := by
        push_cast
        linarith
      exact_mod_cast boundLe
    omega

theorem Canonical.exponent_le (canonical : Canonical significand exponent)
    (alsoCanonical : Canonical otherSignificand otherExponent)
    (sameValue : (significand : ℚ) * 2 ^ exponent = otherSignificand * 2 ^ otherExponent)
    (pos : 0 < significand) : otherExponent ≤ exponent := by
  by_contra above
  have isNormal : 2 ^ 52 ≤ otherSignificand := by
    have := canonical.le
    exact alsoCanonical.normal.resolve_right (by omega)
  obtain ⟨difference, isDifference⟩ : ∃ difference : ℕ, otherExponent = exponent + 1 + difference :=
    ⟨(otherExponent - exponent - 1).toNat, by omega⟩
  have scaled : (significand : ℚ) = otherSignificand * 2 * 2 ^ difference := by
    have notZero := (two_zpow_pos exponent).ne'
    rw [isDifference, zpow_add₀ (by norm_num), zpow_add₀ (by norm_num), zpow_one,
      zpow_natCast] at sameValue
    apply mul_right_cancel₀ notZero
    linarith
  have scaledNat : significand = otherSignificand * 2 * 2 ^ difference := by
    exact_mod_cast scaled
  have atLeast : otherSignificand * 2 * 1 ≤ otherSignificand * 2 * 2 ^ difference :=
    Nat.mul_le_mul_left _ Nat.one_le_two_pow
  have := canonical.lt
  omega

/-- A number has one canonical significand and exponent. -/
theorem Canonical.unique (canonical : Canonical significand exponent)
    (alsoCanonical : Canonical otherSignificand otherExponent) (pos : 0 < significand)
    (sameValue : (significand : ℚ) * 2 ^ exponent = otherSignificand * 2 ^ otherExponent) :
    significand = otherSignificand ∧ exponent = otherExponent := by
  have otherPos : 0 < otherSignificand := by
    by_contra isZero
    have otherZero : otherSignificand = 0 := by omega
    rw [otherZero, Nat.cast_zero, zero_mul] at sameValue
    have positive : (0 : ℚ) < significand * 2 ^ exponent :=
      mul_pos (by exact_mod_cast pos) (two_zpow_pos exponent)
    linarith
  have sameExponent : exponent = otherExponent :=
    le_antisymm (alsoCanonical.exponent_le canonical sameValue.symm otherPos)
      (canonical.exponent_le alsoCanonical sameValue pos)
  subst sameExponent
  have same := mul_right_cancel₀ (two_zpow_pos exponent).ne' sameValue
  exact ⟨by exact_mod_cast same, rfl⟩

section Quantum

variable (isPositive : 0 < exact)
include isPositive

theorem lt_two_zpow_iff (power : ℤ) : exact < 2 ^ power ↔ Int.log 2 exact < power := by
  exact_mod_cast Int.lt_zpow_iff_log_lt (by norm_num) isPositive

theorem two_zpow_le_iff (power : ℤ) : 2 ^ power ≤ exact ↔ power ≤ Int.log 2 exact := by
  exact_mod_cast Int.zpow_le_iff_le_log (by norm_num) isPositive

/-- In quanta a number has at most 53 binary digits. -/
theorem div_quantum_lt : exact / 2 ^ quantum exact < 2 ^ 53 := by
  have below : exact < 2 ^ (53 + quantum exact) := by
    rw [lt_two_zpow_iff isPositive, quantum]
    omega
  rw [zpow_add₀ (by norm_num)] at below
  rw [div_lt_iff₀ (two_zpow_pos _)]
  exact_mod_cast below

/-- Above the least quantum, a number in quanta has all of the 53 binary digits. -/
theorem le_div_quantum (above : -1074 < quantum exact) : 2 ^ 52 ≤ exact / 2 ^ quantum exact := by
  have atLeast : 2 ^ (52 + quantum exact) ≤ exact := by
    rw [two_zpow_le_iff isPositive]
    rw [quantum] at above ⊢
    omega
  rw [zpow_add₀ (by norm_num)] at atLeast
  rw [le_div_iff₀ (two_zpow_pos _)]
  exact_mod_cast atLeast

end Quantum

theorem value_pos (pos : 0 < significand) (exponent : ℤ) :
    (0 : ℚ) < significand * 2 ^ exponent :=
  mul_pos (by exact_mod_cast pos) (two_zpow_pos exponent)

/-- The quantum of a number with canonical parts is its own power of two. -/
theorem quantum_value (canonical : Canonical significand exponent) (pos : 0 < significand) :
    quantum (significand * 2 ^ exponent) = exponent := by
  have isPositive := value_pos pos exponent
  have below : (significand : ℚ) * 2 ^ exponent < 2 ^ (53 + exponent) := by
    rw [zpow_add₀ (by norm_num)]
    have := canonical.lt
    exact mul_lt_mul_of_pos_right (by exact_mod_cast this) (two_zpow_pos exponent)
  rw [lt_two_zpow_iff isPositive] at below
  have atLeast := canonical.le
  rcases canonical.normal with isNormal | isBottom
  · have above : 2 ^ (52 + exponent) ≤ (significand : ℚ) * 2 ^ exponent := by
      rw [zpow_add₀ (by norm_num)]
      exact mul_le_mul_of_nonneg_right (by exact_mod_cast isNormal) (two_zpow_pos exponent).le
    rw [two_zpow_le_iff isPositive] at above
    rw [quantum]
    omega
  · rw [quantum]
    omega

namespace IsRounding

theorem unique (isRounding : IsRounding sign exact parts)
    (alsoRounding : IsRounding sign exact others) : parts = others := by
  cases isRounding with
  | zero isNearest =>
      cases alsoRounding with
      | zero => rfl
      | @finite _ _ exponent pos alsoNearest _ value =>
          have noMultiple := isNearest.unique alsoNearest
          have positive := value_pos pos exponent
          rw [value, ← noMultiple] at positive
          simp at positive
  | @finite _ _ exponent pos isNearest canonical value =>
      cases alsoRounding with
      | zero alsoNearest =>
          have noMultiple := isNearest.unique alsoNearest
          have positive := value_pos pos exponent
          rw [value, noMultiple] at positive
          simp at positive
      | finite alsoNearest alsoCanonical alsoValue =>
          rw [isNearest.unique alsoNearest] at value
          rcases canonical.unique alsoCanonical pos (value.trans alsoValue.symm) with ⟨rfl, rfl⟩
          rfl

/-- A number that can be represented is rounded to itself. -/
theorem self (canonical : Canonical significand exponent) (pos : 0 < significand) :
    IsRounding sign (significand * 2 ^ exponent) (.finite sign significand exponent pos) := by
  have isQuantum := quantum_value canonical pos
  have isNearest : IsNearest (significand * 2 ^ exponent / 2 ^ quantum (significand * 2 ^ exponent))
      significand := by
    rw [isQuantum, mul_div_assoc, div_self (two_zpow_pos exponent).ne', mul_one]
    exact isNearest_natCast significand
  exact .finite isNearest canonical (by rw [isQuantum])

/-- What is closer to a number than one in 2 ^ 54 parts of it is rounded to the number. -/
theorem of_close (canonical : Canonical significand exponent) (pos : 0 < significand)
    (close : |exact - significand * 2 ^ exponent| < significand * 2 ^ exponent / 2 ^ 54) :
    IsRounding sign exact (.finite sign significand exponent pos) := by
  have quantumPos := two_zpow_pos (quantum exact)
  suffices isMultiple : ∃ multiple ≤ 2 ^ 53,
      (significand : ℚ) * 2 ^ exponent = (multiple : ℕ) * 2 ^ quantum exact by
    rcases isMultiple with ⟨multiple, atMost, value⟩
    refine .finite (.inl ?_) canonical value
    have inQuanta : exact / 2 ^ quantum exact - multiple =
        (exact - significand * 2 ^ exponent) / 2 ^ quantum exact := by
      rw [value, sub_div, mul_div_assoc, div_self quantumPos.ne', mul_one]
    rw [inQuanta, abs_div, abs_of_pos quantumPos, div_lt_iff₀ quantumPos]
    have bounded : (multiple : ℚ) ≤ 2 ^ 53 := by exact_mod_cast atMost
    rw [value] at close ⊢
    have := mul_le_mul_of_nonneg_right bounded quantumPos.le
    linarith
  have ⟨above, below⟩ := abs_lt.mp close
  have placePos := two_zpow_pos exponent
  have valuePos := value_pos pos exponent
  have isPositive : 0 < exact := by linarith
  have atLeast := canonical.le
  have quantumLe : quantum exact ≤ exponent := by
    have significandLe : (significand : ℚ) ≤ 2 ^ 53 - 1 := by
      have significandLt : (significand : ℚ) + 1 ≤ 2 ^ 53 := by
        exact_mod_cast Nat.succ_le_of_lt canonical.lt
      linarith
    have valueLe := mul_le_mul_of_nonneg_right significandLe placePos.le
    have exactLt : exact < 2 ^ (53 + exponent) := by
      rw [zpow_add₀ (by norm_num)]
      change exact < 2 ^ 53 * 2 ^ exponent
      linarith
    rw [lt_two_zpow_iff isPositive] at exactLt
    rw [quantum]
    omega
  by_cases isQuantum : quantum exact = exponent
  · exact ⟨significand, canonical.lt.le, by rw [isQuantum]⟩
  · -- Only just below a power of two is the quantum finer than the place of the last digit.
    have isLeast : significand = 2 ^ 52 := by
      have isNormal : 2 ^ 52 ≤ significand := by
        have := le_max_right (Int.log 2 exact - 52) (-1074)
        refine canonical.normal.resolve_right fun isBottom => isQuantum (le_antisymm quantumLe ?_)
        rw [isBottom]
        exact this
      by_contra notLeast
      have significandGe : (2 ^ 52 + 1 : ℚ) ≤ significand := by
        have : 2 ^ 52 + 1 ≤ significand := by omega
        exact_mod_cast this
      have valueGe := mul_le_mul_of_nonneg_right significandGe placePos.le
      have exactGe : 2 ^ (52 + exponent) ≤ exact := by
        rw [zpow_add₀ (by norm_num)]
        change 2 ^ 52 * 2 ^ exponent ≤ exact
        linarith
      rw [two_zpow_le_iff isPositive] at exactGe
      rw [quantum] at isQuantum quantumLe
      omega
    have exactGe : 2 ^ (51 + exponent) ≤ exact := by
      rw [zpow_add₀ (by norm_num)]
      change 2 ^ 51 * 2 ^ exponent ≤ exact
      rw [isLeast] at above
      push_cast at above
      linarith
    rw [two_zpow_le_iff isPositive] at exactGe
    have isBelow : exponent = quantum exact + 1 := by
      rw [quantum] at isQuantum quantumLe ⊢
      omega
    refine ⟨2 ^ 53, le_refl _, ?_⟩
    rw [isLeast, isBelow, zpow_add₀ (by norm_num), zpow_one]
    push_cast
    ring

/-- The powers of two about the bound, as multiples of the one that divides it. -/
theorem zpow_add_970 (power : ℕ) : (2 : ℚ) ^ (970 + power : ℤ) = 2 ^ power * halfTopPlace := by
  rw [zpow_add₀ (by norm_num), zpow_natCast, mul_comm, halfTopPlace]

/-- A canonical value is past the greatest finite number just if its power of two is. -/
theorem overflow_iff_of_canonical (canonical : Canonical significand exponent)
    (pos : 0 < significand) :
    2 ^ 54 * halfTopPlace ≤ significand * 2 ^ exponent ↔ 971 < exponent := by
  rw [← zpow_add_970 54, two_zpow_le_iff (value_pos pos exponent)]
  have isQuantum := quantum_value canonical pos
  rw [quantum] at isQuantum
  omega

theorem multiple_lt_of_lt (isPositive : 0 < exact) (below : exact < overflowBound)
    (isNearest : IsNearest (exact / 2 ^ quantum exact) nearest) :
    nearest * 2 ^ quantum exact < 2 ^ 54 * halfTopPlace := by
  have topPos : 0 < halfTopPlace := two_zpow_pos 970
  have quantumPos := two_zpow_pos (quantum exact)
  have quantumLe : quantum exact ≤ 971 := by
    have exactLt : exact < 2 ^ 54 * halfTopPlace := by
      rw [overflowBound] at below
      linarith
    rw [← zpow_add_970 54, lt_two_zpow_iff isPositive] at exactLt
    rw [quantum]
    omega
  rcases quantumLe.eq_or_lt with isTop | isLower
  · have isPlace : (2 : ℚ) ^ quantum exact = 2 * halfTopPlace := by
      rw [isTop]
      exact zpow_add_970 1
    have near := (abs_le.mp isNearest.abs_sub_le).1
    have inQuanta : exact / 2 ^ quantum exact < 2 ^ 53 - 1 / 2 := by
      rw [div_lt_iff₀ quantumPos, isPlace]
      rw [overflowBound] at below
      linarith
    have nearestLt : (nearest : ℚ) < 2 ^ 53 := by linarith
    have := mul_lt_mul_of_pos_right nearestLt topPos
    rw [isPlace]
    linarith
  · have nearestLe : (nearest : ℚ) ≤ 2 ^ 53 := by
      have inQuanta : exact / 2 ^ quantum exact < (2 ^ 53 : ℕ) := by
        exact_mod_cast div_quantum_lt isPositive
      exact_mod_cast isNearest.le_of_lt inQuanta
    have placeLe : (2 : ℚ) ^ quantum exact ≤ halfTopPlace :=
      zpow_le_zpow_right₀ (by norm_num) (by omega)
    have := mul_le_mul nearestLe placeLe quantumPos.le (by norm_num)
    linarith

theorem le_multiple_of_le (isPositive : 0 < exact) (above : overflowBound ≤ exact)
    (isNearest : IsNearest (exact / 2 ^ quantum exact) nearest) :
    2 ^ 54 * halfTopPlace ≤ nearest * 2 ^ quantum exact := by
  have topPos : 0 < halfTopPlace := two_zpow_pos 970
  have quantumPos := two_zpow_pos (quantum exact)
  have quantumGe : 971 ≤ quantum exact := by
    have exactGe : 2 ^ 53 * halfTopPlace ≤ exact := by
      rw [overflowBound] at above
      linarith
    rw [← zpow_add_970 53, two_zpow_le_iff isPositive] at exactGe
    rw [quantum]
    omega
  rcases quantumGe.eq_or_lt with isTop | isHigher
  · have isPlace : (2 : ℚ) ^ quantum exact = 2 * halfTopPlace := by
      rw [← isTop]
      exact zpow_add_970 1
    have inQuanta : 2 ^ 53 - 1 / 2 ≤ exact / 2 ^ quantum exact := by
      rw [le_div_iff₀ quantumPos, isPlace]
      rw [overflowBound] at above
      linarith
    have nearestGe : (2 ^ 53 : ℚ) ≤ nearest := by
      have halfBelow : ((2 ^ 53 : ℕ) : ℚ) - 1 / 2 ≤ exact / 2 ^ quantum exact := by
        exact_mod_cast inQuanta
      exact_mod_cast isNearest.le_of_half_below (by norm_num) halfBelow
    have := mul_le_mul_of_nonneg_right nearestGe topPos.le
    rw [isPlace]
    linarith
  · have nearestGe : (2 ^ 52 : ℚ) ≤ nearest := by
      have inQuanta : (2 ^ 52 : ℕ) ≤ exact / 2 ^ quantum exact := by
        exact_mod_cast le_div_quantum isPositive (by omega)
      exact_mod_cast isNearest.le_of_le inQuanta
    have placeGe : 2 ^ 2 * halfTopPlace ≤ 2 ^ quantum exact := by
      rw [← zpow_add_970 2]
      exact zpow_le_zpow_right₀ (by norm_num) (by omega)
    have := mul_le_mul nearestGe placeGe (by linarith) (by linarith)
    linarith

/-- The rounding of a number is past the greatest finite number just if the number is from the bound
on, which is half way from the greatest finite number to the next. -/
theorem overflow_iff (isPositive : 0 < exact) {pos : 0 < significand}
    (isRounding : IsRounding sign exact (.finite sign significand exponent pos)) :
    971 < exponent ↔ overflowBound ≤ exact := by
  cases isRounding with
  | finite isNearest canonical value =>
      rw [← overflow_iff_of_canonical canonical pos, value]
      constructor
      · intro overflow
        by_contra below
        exact absurd overflow (multiple_lt_of_lt isPositive (not_le.mp below) isNearest).not_ge
      · intro above
        exact le_multiple_of_le isPositive above isNearest

end IsRounding

end Metrology.Binary64

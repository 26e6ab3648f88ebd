import Metrology.Proofs.Binary64.Positive

/-!
# Powers of positive numbers

A power is formed by repeated squaring, and every product on the way is rounded. The power of a
number without a negative sign is positive just if every exact result on the way is in the range of
positive numbers. Where the number is within a power of two, the exponent multiplies the power of
two, and no product on the way is further from one than the result.
-/

namespace Metrology.Scalar

open Binary64

variable {partialProduct base : Float} {exponent partialWeight weight : ℕ}

/-- The partial product after the lowest digit of an exponent. -/
def absorbDigit (exponent : ℕ) (partialProduct base : Float) : Float :=
  if exponent % 2 = 1 then partialProduct * base else partialProduct

/-- The exact result that is rounded for the lowest digit of an exponent, if the digit is set. -/
def digitSteps (exponent : ℕ) (partialProduct base : Float) : List ℚ :=
  if exponent % 2 = 1 then [exactMagnitude partialProduct * exactMagnitude base] else []

/-- The exact results that are rounded in repeated squaring. -/
def squaringSteps (exponent : ℕ) (partialProduct base : Float) : List ℚ :=
  digitSteps exponent partialProduct base ++
    if _ : exponent / 2 = 0 then []
    else
      (exactMagnitude base * exactMagnitude base) ::
        squaringSteps (exponent / 2) (absorbDigit exponent partialProduct base) (base * base)
termination_by exponent
decreasing_by omega

/-- The exact results that are rounded in forming a power. -/
def powerSteps (base : Float) (exponent : ℤ) : List ℚ :=
  squaringSteps exponent.natAbs 1 base ++
    if exponent < 0 then [1 / exactMagnitude (squaring exponent.natAbs 1 base)] else []

theorem squaring_of_last (isLast : exponent / 2 = 0) :
    squaring exponent partialProduct base = absorbDigit exponent partialProduct base := by
  unfold squaring
  dsimp only
  rw [dif_pos isLast]
  rfl

theorem squaring_of_more (more : exponent / 2 ≠ 0) :
    squaring exponent partialProduct base =
      squaring (exponent / 2) (absorbDigit exponent partialProduct base) (base * base) := by
  conv => lhs; unfold squaring
  dsimp only
  rw [dif_neg more]
  rfl

theorem squaringSteps_of_last (isLast : exponent / 2 = 0) :
    squaringSteps exponent partialProduct base = digitSteps exponent partialProduct base := by
  unfold squaringSteps
  rw [dif_pos isLast, List.append_nil]

theorem squaringSteps_of_more (more : exponent / 2 ≠ 0) :
    squaringSteps exponent partialProduct base =
      digitSteps exponent partialProduct base ++ (exactMagnitude base * exactMagnitude base) ::
        squaringSteps (exponent / 2) (absorbDigit exponent partialProduct base) (base * base) := by
  conv => lhs; unfold squaringSteps
  rw [dif_neg more]

theorem power_eq (base : Float) (exponent : ℤ) :
    Scalar.power base exponent =
      if exponent < 0 then 1 / squaring exponent.natAbs 1 base
      else squaring exponent.natAbs 1 base :=
  rfl

theorem power_zero_right (base : Float) : Scalar.power base 0 = 1 := by
  rw [power_eq, if_neg (by decide), squaring_of_last (by decide)]
  rfl

theorem power_one_right (base : Float) : Scalar.power base 1 = base := by
  rw [power_eq, if_neg (by decide), squaring_of_last (by decide)]
  exact float_one_mul base

section Steps

variable (unsignedPartial : Unsigned partialProduct) (unsignedBase : Unsigned base)
include unsignedPartial unsignedBase

theorem unsigned_absorbDigit (exponent : ℕ) :
    Unsigned (absorbDigit exponent partialProduct base) := by
  unfold absorbDigit
  split
  · exact (gives_mul unsignedPartial unsignedBase).unsigned
  · exact unsignedPartial

theorem isPositive_absorbDigit_iff (exponent : ℕ) :
    IsPositive (absorbDigit exponent partialProduct base) ↔
      IsPositive partialProduct ∧
        ∀ exact ∈ digitSteps exponent partialProduct base, InPositiveRange exact := by
  unfold absorbDigit digitSteps
  split
  · have gives := gives_mul unsignedPartial unsignedBase
    simp only [List.forall_mem_singleton, gives.isPositive_iff]
    exact (and_iff_right_of_imp fun inRange =>
      (isPositive_of_mul unsignedPartial unsignedBase inRange).1).symm
  · simp

/-- The base of a power other than the zeroth has a part in its steps. -/
theorem isPositive_base_of_steps (notZero : exponent ≠ 0)
    (inRange : ∀ exact ∈ squaringSteps exponent partialProduct base, InPositiveRange exact) :
    IsPositive base := by
  unfold squaringSteps at inRange
  rw [List.forall_mem_append] at inRange
  by_cases isOdd : exponent % 2 = 1
  · have first := inRange.1
    rw [digitSteps, if_pos isOdd, List.forall_mem_singleton] at first
    exact (isPositive_of_mul unsignedPartial unsignedBase first).2
  · have more : exponent / 2 ≠ 0 := by omega
    have rest := inRange.2
    rw [dif_neg more, List.forall_mem_cons] at rest
    exact (isPositive_of_mul unsignedBase unsignedBase rest.1).1

theorem unsigned_squaring (exponent : ℕ) : Unsigned (squaring exponent partialProduct base) := by
  induction exponent using Nat.strongRecOn generalizing partialProduct base with
  | ind exponent ih =>
      have unsignedProduct := unsigned_absorbDigit unsignedPartial unsignedBase exponent
      by_cases isLast : exponent / 2 = 0
      · rw [squaring_of_last isLast]
        exact unsignedProduct
      · rw [squaring_of_more isLast]
        exact ih (exponent / 2) (by omega) unsignedProduct
          (gives_mul unsignedBase unsignedBase).unsigned

/-- Repeated squaring gives a positive number just if it begins with one and stays in the range. -/
theorem isPositive_squaring_iff (exponent : ℕ) :
    IsPositive (squaring exponent partialProduct base) ↔
      IsPositive partialProduct ∧
        ∀ exact ∈ squaringSteps exponent partialProduct base, InPositiveRange exact := by
  induction exponent using Nat.strongRecOn generalizing partialProduct base with
  | ind exponent ih =>
      have unsignedProduct := unsigned_absorbDigit unsignedPartial unsignedBase exponent
      have ofDigit := isPositive_absorbDigit_iff unsignedPartial unsignedBase exponent
      by_cases isLast : exponent / 2 = 0
      · rw [squaring_of_last isLast, squaringSteps_of_last isLast]
        exact ofDigit
      · have ofSquare := gives_mul unsignedBase unsignedBase
        rw [squaring_of_more isLast, squaringSteps_of_more isLast, List.forall_mem_append,
          List.forall_mem_cons, ih (exponent / 2) (by omega) unsignedProduct ofSquare.unsigned,
          ofDigit]
        -- The square is the next base, so it is in the range where the later steps are.
        have squareInRange := fun inRange => ofSquare.isPositive_iff.mp
          (isPositive_base_of_steps unsignedProduct ofSquare.unsigned isLast inRange)
        tauto

end Steps

section Power

variable (unsigned : Unsigned base)
include unsigned

theorem unsigned_power (exponent : ℤ) : Unsigned (Scalar.power base exponent) := by
  have unsignedMagnitude := unsigned_squaring isPositive_one.unsigned unsigned exponent.natAbs
  rw [power_eq]
  split
  · exact (gives_one_div unsignedMagnitude).unsigned
  · exact unsignedMagnitude

/-- A power is positive just if every exact result on the way is in the range. -/
theorem isPositive_power_iff (exponent : ℤ) :
    IsPositive (Scalar.power base exponent) ↔
      ∀ exact ∈ powerSteps base exponent, InPositiveRange exact := by
  have unsignedMagnitude := unsigned_squaring isPositive_one.unsigned unsigned exponent.natAbs
  have ofMagnitude := isPositive_squaring_iff isPositive_one.unsigned unsigned exponent.natAbs
  rw [and_iff_right isPositive_one] at ofMagnitude
  rw [power_eq, powerSteps, List.forall_mem_append, ← ofMagnitude]
  split
  · rw [(gives_one_div unsignedMagnitude).isPositive_iff, List.forall_mem_singleton]
    refine (and_iff_right_of_imp fun inRange => ?_).symm
    rw [unsignedMagnitude.isPositive_iff]
    exact one_div_pos.mp inRange.pos
  · simp

/-- Only a positive number has positive powers, but for the zeroth. -/
theorem isPositive_of_power {exponent : ℤ} (notZero : exponent ≠ 0)
    (positive : IsPositive (Scalar.power base exponent)) : IsPositive base := by
  rw [isPositive_power_iff unsigned, powerSteps, List.forall_mem_append] at positive
  exact isPositive_base_of_steps isPositive_one.unsigned unsigned (by omega) positive.1

end Power

/-- Repeated squaring multiplies the distance from one by the exponent. -/
theorem within_squaring (ofPartial : Within partialWeight partialProduct)
    (ofBase : Within weight base) (atMost : partialWeight + exponent * weight ≤ 1023) :
    Within (partialWeight + exponent * weight) (squaring exponent partialProduct base) := by
  induction exponent using Nat.strongRecOn
    generalizing partialProduct base partialWeight weight with
  | ind exponent ih =>
      have halves := Nat.div_add_mod exponent 2
      have product : Within (partialWeight + exponent % 2 * weight)
          (absorbDigit exponent partialProduct base) := by
        unfold absorbDigit
        split
        · rename_i isOdd
          rw [isOdd, Nat.one_mul]
          have : 1 * weight ≤ exponent * weight := Nat.mul_le_mul_right weight (by omega)
          exact ofPartial.mul ofBase (by omega)
        · rename_i isEven
          rw [show exponent % 2 = 0 by omega, Nat.zero_mul, Nat.add_zero]
          exact ofPartial
      by_cases isLast : exponent / 2 = 0
      · rw [squaring_of_last isLast]
        rwa [show exponent % 2 = exponent by omega] at product
      · have total : partialWeight + exponent % 2 * weight + exponent / 2 * (weight + weight) =
            partialWeight + exponent * weight := by
          conv => rhs; rw [← halves]
          ring
        have square : Within (weight + weight) (base * base) := by
          have : 1 * (weight + weight) ≤ exponent / 2 * (weight + weight) :=
            Nat.mul_le_mul_right _ (by omega)
          exact ofBase.mul ofBase (by omega)
        rw [squaring_of_more isLast, ← total]
        exact ih (exponent / 2) (by omega) product square (by omega)

theorem within_power (within : Within weight base) (exponent : ℤ)
    (atMost : exponent.natAbs * weight ≤ 1023) :
    Within (exponent.natAbs * weight) (Scalar.power base exponent) := by
  have magnitude : Within (0 + exponent.natAbs * weight) (squaring exponent.natAbs one base) :=
    within_squaring within_one within (by omega)
  rw [Nat.zero_add] at magnitude
  rw [power_eq]
  split
  · exact magnitude.reciprocal atMost
  · exact magnitude

end Metrology.Scalar

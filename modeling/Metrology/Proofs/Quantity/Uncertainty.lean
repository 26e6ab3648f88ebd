import Mathlib.Algebra.Order.Field.Basic
import Mathlib.Data.Rat.Cast.Order
import Mathlib.Tactic.FieldSimp
import Mathlib.Tactic.Positivity
import Mathlib.Tactic.Ring
import Metrology.Proofs.Dimension.Algebra
import Metrology.Proofs.Quantity.Dimension

/-!
# Propagation of uncertainties

Read over the rational numbers, where nothing is rounded and no result is infinite, the formulas for
products, quotients and powers are three forms of one rule to first order. The relative
uncertainties of factors add up, a power multiplies the relative uncertainty by the magnitude of its
exponent, a quotient is the product with an inverse, and a power is a repeated product. Only an
exponent of a base unit that leaves its range can keep an operation from having a result.
-/

namespace Metrology

namespace Scalar

theorem abs_rat (number : ℚ) : Scalar.abs number = |number| := by
  change (if 0 ≤ number then number else -number) = |number|
  split
  · rename_i nonneg
    exact (abs_of_nonneg nonneg).symm
  · rename_i negative
    exact (abs_of_neg (not_le.mp negative)).symm

theorem squaring_rat (exponent : ℕ) (partialProduct base : ℚ) :
    squaring exponent partialProduct base = partialProduct * base ^ exponent := by
  induction exponent using Nat.strongRecOn generalizing partialProduct base with
  | ind exponent ih =>
      have digits : partialProduct * base ^ exponent =
          partialProduct * base ^ (exponent % 2) * (base * base) ^ (exponent / 2) := by
        rw [mul_assoc, ← pow_two, ← pow_mul, ← pow_add, Nat.mod_add_div]
      have product : (if exponent % 2 = 1 then partialProduct * base else partialProduct) =
          partialProduct * base ^ (exponent % 2) := by
        rcases Nat.mod_two_eq_zero_or_one exponent with isEven | isOdd
        · rw [isEven, if_neg (by norm_num), pow_zero, mul_one]
        · rw [isOdd, if_pos rfl, pow_one]
      unfold squaring
      dsimp only
      change (if _ : exponent / 2 = 0 then
          (if exponent % 2 = 1 then partialProduct * base else partialProduct)
        else squaring (exponent / 2)
          (if exponent % 2 = 1 then partialProduct * base else partialProduct) (base * base)) = _
      rw [product, digits]
      split
      · rename_i isLast
        rw [isLast, pow_zero, mul_one]
      · exact ih (exponent / 2) (by omega) _ _

/-- Over the rational numbers repeated squaring gives the power. -/
theorem power_rat (base : ℚ) (exponent : ℤ) : Scalar.power base exponent = base ^ exponent := by
  change (if exponent < 0 then 1 / squaring exponent.natAbs 1 base
    else squaring exponent.natAbs 1 base) = base ^ exponent
  rw [squaring_rat, one_mul, ← zpow_natCast]
  split
  · rw [one_div, ← zpow_neg]
    congr 1
    omega
  · congr 1
    omega

end Scalar

namespace Quantity

variable {left right quantity : Quantity ℚ} {dimension : Dimension} {exponent : Int32}

theorem uncertainty_ofBase_rat (value uncertainty : ℚ) (unit : UnitOfMeasure) :
    (ofBase value uncertainty unit).uncertainty = |uncertainty| :=
  Scalar.abs_rat uncertainty

theorem uncertainty_nonneg (quantity : Quantity ℚ) : 0 ≤ quantity.uncertainty := by
  rcases quantity.unsigned with ⟨given, isAbs⟩
  rw [isAbs, Scalar.abs_rat]
  exact abs_nonneg given

/-- A quantity made anew of its own parts is the same. -/
theorem ofBase_self (quantity : Quantity ℚ) :
    ofBase quantity.value |quantity.uncertainty| { dimension := quantity.dimension } = quantity := by
  refine ext_dimension rfl ?_ rfl
  rw [uncertainty_ofBase_rat, abs_abs, abs_of_nonneg quantity.uncertainty_nonneg]

theorem mul?_rat (left right : Quantity ℚ) :
    left.mul? right = QuantityError.ofRange? ((left.dimension.mul? right.dimension).map
      fun dimension => ofBase (left.value * right.value)
        (|left.uncertainty| * |right.value| + |right.uncertainty| * |left.value|)
        { dimension }) := by
  rw [mul?_eq, Scalar.abs_rat, Scalar.abs_rat, abs_mul, abs_mul]
  cases left.dimension.mul? right.dimension <;> rfl

theorem div?_rat (left : Quantity ℚ) (nonzero : right.value ≠ 0) :
    left.div? right = QuantityError.ofRange? ((left.dimension.div? right.dimension).map
      fun dimension => ofBase (left.value / right.value)
        (|left.uncertainty| / |right.value| +
          |right.uncertainty| * |left.value / right.value| / |right.value|)
        { dimension }) := by
  have notZero : Scalar.isZero right.value = false := beq_eq_false_iff_ne.mpr nonzero
  rw [div?_eq left notZero, Scalar.abs_rat, Scalar.abs_rat, abs_div, abs_div, abs_mul]
  cases left.dimension.div? right.dimension <;> rfl

theorem loweredPower_rat (value : ℚ) (exponent : Int32) :
    loweredPower value exponent = value ^ (exponent.toInt - 1) := by
  unfold loweredPower
  split
  · exact Scalar.power_rat value _
  · rfl

theorem pow?_rat (quantity : Quantity ℚ) (exponent : Int32) :
    quantity.pow? exponent = QuantityError.ofRange? ((quantity.dimension.pow? exponent).map
      fun dimension => ofBase (quantity.value ^ exponent.toInt)
        (|(exponent.toInt : ℚ)| * |quantity.uncertainty| * |quantity.value ^ (exponent.toInt - 1)|)
        { dimension }) := by
  rw [pow?_eq]
  cases quantity.dimension.pow? exponent with
  | none => rfl
  | some dimension =>
      change (if exponent = 0 then .ok (ofBase (Scalar.one : ℚ) Scalar.zero { dimension }) else _) =
        Except.ok _
      split
      · rename_i isZero
        subst isZero
        simp [Scalar.one, Scalar.zero]
      · rw [Scalar.power_rat, loweredPower_rat, Scalar.abs_rat, abs_mul, abs_mul]
        split
        · rename_i isExact
          rw [eq_of_beq isExact, abs_zero, mul_zero, zero_mul]
          rfl
        · rfl

theorem relativeUncertainty_rat (quantity : Quantity ℚ) :
    quantity.relativeUncertainty = |quantity.uncertainty| / |quantity.value| := by
  unfold relativeUncertainty
  rw [Scalar.abs_rat, abs_div]
  split
  · rename_i isZero
    rw [eq_of_beq isZero, abs_zero, zero_div]
    rfl
  · rfl

theorem relativeUncertainty_ofBase {value uncertainty : ℚ} (nonneg : 0 ≤ uncertainty)
    (unit : UnitOfMeasure) :
    (ofBase value uncertainty unit).relativeUncertainty = uncertainty / |value| := by
  rw [relativeUncertainty_rat, uncertainty_ofBase_rat, abs_abs, abs_of_nonneg nonneg, value_ofBase]

/-- The product of a quantity with itself a number of times, formed from left to right. Without any
factor it is the exact number one. -/
def selfProduct? {α : Type} [Scalar α] (quantity : Quantity α) :
    ℕ → Except QuantityError (Quantity α)
  | 0 => .ok (.dimensionless Scalar.one)
  | 1 => .ok quantity
  | count + 2 => do
      let product ← quantity.selfProduct? (count + 1)
      product.mul? quantity

/-- The relative uncertainty of a product is the sum of those of its factors. -/
theorem relativeUncertainty_of_mul? (leftNonzero : left.value ≠ 0) (rightNonzero : right.value ≠ 0)
    (isDimension : left.dimension.mul? right.dimension = some dimension) :
    ∃ product, left.mul? right = .ok product ∧
      product.relativeUncertainty = left.relativeUncertainty + right.relativeUncertainty := by
  rw [mul?_rat, isDimension]
  refine ⟨_, rfl, ?_⟩
  have leftPos := abs_pos.mpr leftNonzero
  have rightPos := abs_pos.mpr rightNonzero
  rw [relativeUncertainty_ofBase (by positivity), abs_mul]
  simp only [relativeUncertainty_rat]
  field_simp

/-- The relative uncertainty of a quotient is the sum of those of its parts. -/
theorem relativeUncertainty_of_div? (leftNonzero : left.value ≠ 0) (rightNonzero : right.value ≠ 0)
    (isDimension : left.dimension.div? right.dimension = some dimension) :
    ∃ quotient, left.div? right = .ok quotient ∧
      quotient.relativeUncertainty = left.relativeUncertainty + right.relativeUncertainty := by
  rw [div?_rat left rightNonzero, isDimension]
  refine ⟨_, rfl, ?_⟩
  have leftPos := abs_pos.mpr leftNonzero
  have rightPos := abs_pos.mpr rightNonzero
  rw [relativeUncertainty_ofBase (by positivity), abs_div]
  simp only [relativeUncertainty_rat]
  field_simp

/-- A power multiplies the relative uncertainty by the magnitude of its exponent. -/
theorem relativeUncertainty_of_pow? (nonzero : quantity.value ≠ 0)
    (isDimension : quantity.dimension.pow? exponent = some dimension) :
    ∃ power, quantity.pow? exponent = .ok power ∧
      power.relativeUncertainty = |(exponent.toInt : ℚ)| * quantity.relativeUncertainty := by
  rw [pow?_rat, isDimension]
  refine ⟨_, rfl, ?_⟩
  have valuePos := abs_pos.mpr nonzero
  rw [relativeUncertainty_ofBase (by positivity), relativeUncertainty_rat, zpow_sub_one₀ nonzero,
    abs_mul, abs_inv]
  field_simp

/-- A quotient is the product with the inverse. -/
theorem div?_eq_mul?_of_inverse (left : Quantity ℚ) (nonzero : right.value ≠ 0)
    (isDimension : right.dimension.pow? (-1) = some dimension) :
    ∃ inverse, right.pow? (-1) = .ok inverse ∧ left.div? right = left.mul? inverse := by
  rw [pow?_rat, isDimension]
  refine ⟨_, rfl, ?_⟩
  have valuePos := abs_pos.mpr nonzero
  have sameValue : left.value / right.value = left.value * right.value ^ (-1 : ℤ) := by
    rw [zpow_neg_one, div_eq_mul_inv]
  have sameUncertainty : |left.uncertainty| / |right.value| +
        |right.uncertainty| * |left.value / right.value| / |right.value| =
      |left.uncertainty| * |right.value ^ (-1 : ℤ)| +
        |(|((-1 : ℤ) : ℚ)| * |right.uncertainty| * |right.value ^ (-1 - 1 : ℤ)|)| *
          |left.value| := by
    rw [zpow_sub_one₀ nonzero, zpow_neg_one, Int.cast_neg, Int.cast_one, abs_neg, abs_one, one_mul,
      abs_mul, abs_mul, abs_mul, abs_abs, abs_abs, abs_inv, abs_div]
    field_simp
  dsimp only
  rw [mul?_rat, div?_rat left nonzero, Dimension.div?_eq_mul?_of_pow?_neg_one isDimension,
    value_ofBase, uncertainty_ofBase_rat, abs_abs, dimension_ofBase, Dimension.toInt_neg_one,
    sameUncertainty, sameValue]

/-- A power of positive exponent, in terms of natural numbers. -/
theorem pow?_of_count {count : ℕ} (isCount : exponent.toInt = count + 1) :
    quantity.pow? exponent = QuantityError.ofRange? ((quantity.dimension.pow? exponent).map
      fun dimension => ofBase (quantity.value ^ (count + 1))
        ((count + 1) * |quantity.uncertainty| * |quantity.value| ^ count) { dimension }) := by
  have sameValue : quantity.value ^ ((count : ℤ) + 1) = quantity.value ^ (count + 1) := by
    rw [← Nat.cast_add_one, zpow_natCast]
  have countNonneg : (0 : ℚ) ≤ ((count : ℤ) + 1 : ℤ) := by positivity
  rw [pow?_rat, isCount, sameValue, add_sub_cancel_right, zpow_natCast, abs_pow,
    abs_of_nonneg countNonneg]
  push_cast
  rfl

/-- One more factor raises a power to the next one. -/
theorem pow?_bind_mul? {next : Int32} {count : ℕ} (isCount : exponent.toInt = count + 1)
    (isNext : next.toInt = exponent.toInt + 1) :
    (quantity.pow? exponent >>= fun power => power.mul? quantity) = quantity.pow? next := by
  have isNextCount : next.toInt = (count + 1 : ℕ) + 1 := by rw [isNext, isCount]; rfl
  rw [pow?_of_count isCount, pow?_of_count isNextCount,
    ← Dimension.pow?_bind_mul? (by omega) isNext]
  cases quantity.dimension.pow? exponent with
  | none => rfl
  | some dimension =>
      have sameUncertainty :
          |(count + 1) * |quantity.uncertainty| * |quantity.value| ^ count| * |quantity.value| +
              |quantity.uncertainty| * |quantity.value ^ (count + 1)| =
            ((count + 1 : ℕ) + 1) * |quantity.uncertainty| * |quantity.value| ^ (count + 1) := by
        rw [abs_of_nonneg (by positivity), abs_pow]
        push_cast
        ring
      change (ofBase _ _ { dimension }).mul? quantity = _
      rw [mul?_rat, uncertainty_ofBase_rat, abs_abs, value_ofBase, dimension_ofBase,
        sameUncertainty, ← pow_succ quantity.value (count + 1), Option.bind_some]

/-- A power is the repeated product. Both leave the range of exponents at once. -/
theorem selfProduct?_eq_pow? {count : ℕ} (isCount : exponent.toInt = count + 1) :
    quantity.selfProduct? (count + 1) = quantity.pow? exponent := by
  induction count generalizing exponent with
  | zero =>
      have isDimension : quantity.dimension.pow? exponent = some quantity.dimension := by
        rw [Dimension.pow?_eq_some_iff]
        intro base
        rw [isCount, Nat.cast_zero, zero_add, mul_one]
      rw [pow?_of_count isCount, isDimension]
      simp only [selfProduct?, Option.map_some, Nat.cast_zero, zero_add, pow_one, pow_zero, one_mul,
        mul_one, ofBase_self]
      rfl
  | succ count ih =>
      have bounds := exponent.toInt_lt
      obtain ⟨previous, isPrevious⟩ : ∃ previous : Int32, previous.toInt = count + 1 :=
        ⟨Int32.ofInt (count + 1), Int32.toInt_ofInt_of_le (by omega) (by omega)⟩
      rw [selfProduct?, ih isPrevious]
      exact pow?_bind_mul? isPrevious (by rw [isCount, isPrevious]; rfl)

/-- Uncertainties are propagated consistently to first order, in terms of relative uncertainties,
which are the absolute ones over the magnitude of the value. As long as no exponent leaves its
range, the relative uncertainty of a product and of a quotient is the sum of those of the operands,
and that of a power is the magnitude of the exponent times that of the base. A quotient is the
product with the inverse in value, uncertainty and dimension. A power is the repeated product, also
of a quantity whose value is zero, and where one of the two has no result neither has the other. -/
theorem uncertainty_first_order (left right : Quantity ℚ) (exponent : Int32) :
    (∀ quantity : Quantity ℚ,
      quantity.relativeUncertainty = |quantity.uncertainty| / |quantity.value|) ∧
    (left.value ≠ 0 → right.value ≠ 0 →
      (∀ dimension, left.dimension.mul? right.dimension = some dimension →
        ∃ product, left.mul? right = .ok product ∧
          product.relativeUncertainty = left.relativeUncertainty + right.relativeUncertainty) ∧
      (∀ dimension, left.dimension.div? right.dimension = some dimension →
        ∃ quotient, left.div? right = .ok quotient ∧
          quotient.relativeUncertainty = left.relativeUncertainty + right.relativeUncertainty) ∧
      (∀ dimension, left.dimension.pow? exponent = some dimension →
        ∃ power, left.pow? exponent = .ok power ∧
          power.relativeUncertainty = |(exponent.toInt : ℚ)| * left.relativeUncertainty) ∧
      ∀ dimension, right.dimension.pow? (-1) = some dimension →
        ∃ inverse, right.pow? (-1) = .ok inverse ∧ left.div? right = left.mul? inverse) ∧
    (1 ≤ exponent.toInt → left.selfProduct? exponent.toInt.toNat = left.pow? exponent) := by
  refine ⟨relativeUncertainty_rat, fun leftNonzero rightNonzero => ⟨?_, ?_, ?_, ?_⟩,
    fun oneLe => ?_⟩
  · exact fun dimension => relativeUncertainty_of_mul? leftNonzero rightNonzero
  · exact fun dimension => relativeUncertainty_of_div? leftNonzero rightNonzero
  · exact fun dimension => relativeUncertainty_of_pow? leftNonzero
  · exact fun dimension => div?_eq_mul?_of_inverse left rightNonzero
  · obtain ⟨count, isCount⟩ : ∃ count : ℕ, exponent.toInt.toNat = count + 1 :=
      ⟨exponent.toInt.toNat - 1, by omega⟩
    rw [isCount]
    exact selfProduct?_eq_pow? (by omega)

end Quantity

end Metrology

import Metrology.Proofs.Dimension.Exact
import Metrology.Proofs.Quantity.Base

/-!
# Dimensions of results

What the operations on quantities do with dimensions, whatever the values are. A sum or difference
keeps the dimension that its operands share, and it alone fails for a mismatch of dimensions;
products, quotients and powers have the exact exponents.
-/

namespace Metrology

namespace QuantityError

/-- Whether an operation failed because its operands have two dimensions. -/
def IsMismatch (error : QuantityError) : Prop :=
  ∃ left right, error = .dimensionMismatch left right

variable {α β : Type} {option : Option α} {next : α → Except QuantityError β}

theorem ofRange?_bind_eq_ok_iff {result : β} :
    (ofRange? option >>= next) = .ok result ↔
      ∃ value, option = some value ∧ next value = .ok result := by
  cases option <;> simp [ofRange?, UnitError.ofRange?, ofUnit, bind, Except.bind]

theorem not_isMismatch_of_ofRange?_bind {error : QuantityError}
    (isError : (ofRange? option >>= next) = .error error)
    (noMismatch : ∀ value error, next value = .error error → ¬error.IsMismatch) :
    ¬error.IsMismatch := by
  cases option with
  | none =>
      cases isError
      simp [IsMismatch]
  | some value => exact noMismatch value error isError

end QuantityError

namespace Quantity

variable {α : Type} [Scalar α] {left right quantity result : Quantity α} {operation : Operation}
  {value uncertainty : α} {unit : UnitOfMeasure} {exponent : Int32} {error : QuantityError}

/-- What an operation gives is held in the unit that it computed, with the scale reset. -/
theorem heldUnit_of_finite?
    (isResult : finite? operation value uncertainty unit = .ok result) :
    result.heldUnit = unit.toBase := by
  unfold finite? at isResult
  split at isResult
  · cases isResult
    rfl
  · cases isResult

theorem dimension_of_finite?
    (isResult : finite? operation value uncertainty unit = .ok result) :
    result.dimension = unit.dimension := by
  rw [dimension, heldUnit_of_finite? isResult]
  rfl

theorem not_isMismatch_of_finite?
    (isError : finite? operation value uncertainty unit = .error error) :
    ¬error.IsMismatch := by
  unfold finite? at isError
  split at isError
  · cases isError
  · cases isError
    simp [QuantityError.IsMismatch]

theorem dimension_of_add? (isResult : left.add? right = .ok result) :
    left.dimension = right.dimension ∧ result.dimension = left.dimension := by
  unfold add? at isResult
  split at isResult
  · rename_i compatible
    exact ⟨beq_iff_eq.mp compatible, dimension_of_finite? isResult⟩
  · cases isResult

theorem dimension_of_sub? (isResult : left.sub? right = .ok result) :
    left.dimension = right.dimension ∧ result.dimension = left.dimension := by
  unfold sub? at isResult
  split at isResult
  · rename_i compatible
    exact ⟨beq_iff_eq.mp compatible, dimension_of_finite? isResult⟩
  · cases isResult

theorem toInts_of_mul? (isResult : left.mul? right = .ok result) (base : BaseUnit) :
    result.dimension.toInts base = left.dimension.toInts base + right.dimension.toInts base := by
  rw [mul?_eq] at isResult
  rcases QuantityError.ofRange?_bind_eq_ok_iff.mp isResult with ⟨dimension, isProduct, isFinite⟩
  rw [dimension_of_finite? isFinite]
  exact Dimension.mul?_eq_some_iff.mp isProduct base

theorem toInts_of_div? (isResult : left.div? right = .ok result) (base : BaseUnit) :
    result.dimension.toInts base = left.dimension.toInts base - right.dimension.toInts base := by
  cases isZero : Scalar.isZero right.value with
  | true =>
      rw [div?, isZero, if_pos rfl] at isResult
      cases isResult
  | false =>
      rw [div?_eq left isZero] at isResult
      rcases QuantityError.ofRange?_bind_eq_ok_iff.mp isResult with
        ⟨dimension, isQuotient, isFinite⟩
      rw [dimension_of_finite? isFinite]
      exact Dimension.div?_eq_some_iff.mp isQuotient base

theorem toInts_of_pow? (isResult : quantity.pow? exponent = .ok result) (base : BaseUnit) :
    result.dimension.toInts base = quantity.dimension.toInts base * exponent.toInt := by
  rw [pow?_eq] at isResult
  rcases QuantityError.ofRange?_bind_eq_ok_iff.mp isResult with ⟨dimension, isPower, isFinite⟩
  have isDimension : result.dimension = dimension := by
    split at isFinite
    · cases isFinite
      rfl
    · exact dimension_of_finite? isFinite
  rw [isDimension]
  exact Dimension.pow?_eq_some_iff.mp isPower base

theorem dimension_ne_of_add? (isError : left.add? right = .error error)
    (mismatch : error.IsMismatch) : left.dimension ≠ right.dimension := by
  unfold add? at isError
  split at isError
  · exact absurd mismatch (not_isMismatch_of_finite? isError)
  · rename_i incompatible
    exact fun same => incompatible (beq_iff_eq.mpr same)

theorem dimension_ne_of_sub? (isError : left.sub? right = .error error)
    (mismatch : error.IsMismatch) : left.dimension ≠ right.dimension := by
  unfold sub? at isError
  split at isError
  · exact absurd mismatch (not_isMismatch_of_finite? isError)
  · rename_i incompatible
    exact fun same => incompatible (beq_iff_eq.mpr same)

theorem not_isMismatch_of_mul? (isError : left.mul? right = .error error) :
    ¬error.IsMismatch :=
  QuantityError.not_isMismatch_of_ofRange?_bind isError
    fun _ _ => not_isMismatch_of_finite?

theorem not_isMismatch_of_div? (isError : left.div? right = .error error) :
    ¬error.IsMismatch := by
  unfold div? at isError
  split at isError
  · cases isError
    simp [QuantityError.IsMismatch]
  · exact QuantityError.not_isMismatch_of_ofRange?_bind isError
      fun _ _ => not_isMismatch_of_finite?

theorem not_isMismatch_of_pow? (isError : quantity.pow? exponent = .error error) :
    ¬error.IsMismatch := by
  refine QuantityError.not_isMismatch_of_ofRange?_bind isError fun dimension error isError => ?_
  split at isError
  · cases isError
  · exact not_isMismatch_of_finite? isError

end Quantity

end Metrology

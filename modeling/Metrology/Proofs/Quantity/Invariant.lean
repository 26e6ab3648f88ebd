import Metrology.Proofs.Binary64.Sign
import Metrology.Proofs.Quantity.Dimension
import Metrology.Quantity.Literal

/-!
# What every quantity is like

A quantity is only ever made by `Quantity.ofBase`, which resets the scale of the unit and drops the
sign of the uncertainty. So all quantities are sound, whichever constructor or operation they come
from. That their numbers are finite is not in the type. Most operations check it of what they give,
whatever their operands were; the negation checks nothing, but keeps it.
-/

namespace Metrology

namespace Quantity

/-- Whether neither number of a quantity is infinite or undefined. -/
structure IsFinite (quantity : Quantity Float) : Prop where
  value : quantity.value.isFinite = true
  uncertainty : quantity.uncertainty.isFinite = true

/-- Whether the numbers of a quantity are in base units, with an uncertainty of clear sign. -/
structure IsSound (quantity : Quantity Float) : Prop where
  scale : quantity.heldUnit.scale = 1
  uncertainty : Decimal.signOf quantity.uncertainty = false

variable {left right quantity result : Quantity Float} {operation : Operation}
  {value uncertainty : Float} {unit : UnitOfMeasure} {exponent : Int32}

/-- Every quantity is in base units, and its uncertainty has no sign. -/
theorem isSound (quantity : Quantity Float) : quantity.IsSound where
  scale := quantity.scale_heldUnit
  uncertainty := by
    rcases quantity.unsigned with ⟨given, isAbs⟩
    rw [isAbs]
    exact Binary64.signOf_abs given

theorem isFinite_ofBase (finiteValue : value.isFinite = true)
    (finiteUncertainty : uncertainty.isFinite = true) :
    (ofBase value uncertainty unit).IsFinite :=
  ⟨finiteValue, (Binary64.isFinite_abs uncertainty).trans finiteUncertainty⟩

theorem isFinite_ofBase_iff :
    (ofBase value uncertainty unit).IsFinite ↔
      value.isFinite = true ∧ uncertainty.isFinite = true := by
  constructor
  · intro finite
    exact ⟨finite.value, (Binary64.isFinite_abs uncertainty).symm.trans finite.uncertainty⟩
  · exact fun finite => isFinite_ofBase finite.1 finite.2

theorem IsFinite.neg (finite : quantity.IsFinite) : quantity.neg.IsFinite :=
  isFinite_ofBase ((Binary64.isFinite_neg quantity.value).trans finite.value) finite.uncertainty

theorem isFinite_of_finite?
    (isResult : finite? operation value uncertainty unit = .ok result) :
    result.IsFinite := by
  unfold finite? at isResult
  split at isResult
  · rename_i finite
    rw [Bool.and_eq_true] at finite
    cases isResult
    exact isFinite_ofBase finite.1 finite.2
  · cases isResult

theorem isFinite_of_add? (isResult : left.add? right = .ok result) : result.IsFinite := by
  unfold add? at isResult
  split at isResult
  · exact isFinite_of_finite? isResult
  · cases isResult

theorem isFinite_of_sub? (isResult : left.sub? right = .ok result) : result.IsFinite := by
  unfold sub? at isResult
  split at isResult
  · exact isFinite_of_finite? isResult
  · cases isResult

theorem isFinite_of_mul? (isResult : left.mul? right = .ok result) : result.IsFinite := by
  rcases QuantityError.ofRange?_bind_eq_ok_iff.mp isResult with ⟨_, _, isFinite⟩
  exact isFinite_of_finite? isFinite

theorem isFinite_of_div? (isResult : left.div? right = .ok result) : result.IsFinite := by
  unfold div? at isResult
  split at isResult
  · cases isResult
  · rcases QuantityError.ofRange?_bind_eq_ok_iff.mp isResult with ⟨_, _, isFinite⟩
    exact isFinite_of_finite? isFinite

/-- A power is finite, also the power zero, which is not checked. -/
theorem isFinite_of_pow? (isResult : quantity.pow? exponent = .ok result) :
    result.IsFinite := by
  rcases QuantityError.ofRange?_bind_eq_ok_iff.mp isResult with ⟨_, _, isPower⟩
  split at isPower
  · cases isPower
    exact isFinite_ofBase (by decide +kernel) (by decide +kernel)
  · exact isFinite_of_finite? isPower

theorem isFinite_of_parse {system : UnitSystem} {text : String}
    (isQuantity : parse system text = .ok quantity) : quantity.IsFinite := by
  unfold parse at isQuantity
  split at isQuantity
  · cases isQuantity
  · rename_i literal _
    cases isUnit : system.parse (String.ofList literal.unit) with
    | error error =>
        rw [isUnit] at isQuantity
        cases isQuantity
    | ok unit =>
        rw [isUnit] at isQuantity
        change (if _ then _ else _) = _ at isQuantity
        split at isQuantity
        · rename_i finite
          rw [Bool.and_eq_true] at finite
          cases isQuantity
          exact ⟨finite.1, finite.2⟩
        · cases isQuantity

end Quantity

end Metrology

import Metrology.Quantity.Basic

/-!
# Quantities in base units

Whatever unit a quantity was given in, and whatever scales were multiplied on the way to it, it is
held in base units: making it has reset the scale. So a quantity is determined by its value, its
uncertainty and its dimension, and although products, quotients and powers are formed of units with
their scales, what they give is decided by the dimensions alone.
-/

namespace Metrology

theorem QuantityError.ofRange?_map_bind {α β γ : Type} (option : Option α) (map : α → β)
    (next : β → Except QuantityError γ) :
    (ofRange? (option.map map) >>= next) = (ofRange? option >>= fun value => next (map value)) := by
  cases option <;> rfl

namespace Quantity

variable {α : Type} [Scalar α] {left right : Quantity α} {value uncertainty : α}
  {unit other : UnitOfMeasure}

@[simp]
theorem value_ofBase : (ofBase value uncertainty unit).value = value :=
  rfl

@[simp]
theorem dimension_ofBase : (ofBase value uncertainty unit).dimension = unit.dimension :=
  rfl

theorem dimension_neg (quantity : Quantity α) : quantity.neg.dimension = quantity.dimension :=
  rfl

/-- The numbers of every quantity are in base units. -/
theorem scale_heldUnit (quantity : Quantity α) : quantity.heldUnit.scale = 1 := by
  rcases quantity.inBase with ⟨given, isReset⟩
  rw [isReset]
  rfl

theorem heldUnit_eq (quantity : Quantity α) : quantity.heldUnit = ⟨quantity.dimension, 1⟩ := by
  rw [← quantity.scale_heldUnit]
  rfl

theorem ext_dimension (sameValue : left.value = right.value)
    (sameUncertainty : left.uncertainty = right.uncertainty)
    (sameDimension : left.dimension = right.dimension) : left = right := by
  refine Quantity.ext sameValue sameUncertainty ?_
  rw [heldUnit_eq, heldUnit_eq, sameDimension]

/-- The scale of the unit that a quantity is made with means nothing. -/
theorem ofBase_congr (same : unit.dimension = other.dimension) :
    ofBase value uncertainty unit = ofBase value uncertainty other :=
  ext_dimension rfl rfl same

theorem finite?_congr {operation : Operation} (same : unit.dimension = other.dimension) :
    finite? operation value uncertainty unit = finite? operation value uncertainty other := by
  rw [finite?, finite?, ofBase_congr same]

/-- The product over dimensions without scales. -/
theorem mul?_eq (left right : Quantity α) :
    left.mul? right =
      (QuantityError.ofRange? (left.dimension.mul? right.dimension) >>= fun dimension =>
        finite? .multiplication (left.value * right.value)
          (Scalar.abs (left.uncertainty * right.value) +
            Scalar.abs (right.uncertainty * left.value))
          { dimension }) :=
  (QuantityError.ofRange?_map_bind _ _ _).trans
    (congrArg _ (funext fun _ => finite?_congr rfl))

/-- The quotient over dimensions without scales. -/
theorem div?_eq (left : Quantity α) (nonzero : Scalar.isZero right.value = false) :
    left.div? right =
      (QuantityError.ofRange? (left.dimension.div? right.dimension) >>= fun dimension =>
        finite? .division (left.value / right.value)
          (Scalar.abs (left.uncertainty / right.value) +
            Scalar.abs (right.uncertainty * (left.value / right.value) / right.value))
          { dimension }) := by
  rw [div?, nonzero, if_neg Bool.false_ne_true]
  exact (QuantityError.ofRange?_map_bind _ _ _).trans
    (congrArg _ (funext fun _ => finite?_congr rfl))

/-- The power over dimensions without scales. -/
theorem pow?_eq (quantity : Quantity α) (exponent : Int32) :
    quantity.pow? exponent =
      (QuantityError.ofRange? (quantity.dimension.pow? exponent) >>= fun dimension =>
        if exponent = 0 then .ok (ofBase Scalar.one Scalar.zero { dimension })
        else
          finite? .exponentiation (Scalar.power quantity.value exponent.toInt)
            (if Scalar.isZero quantity.uncertainty then Scalar.zero
            else Scalar.abs (Scalar.ofInt exponent.toInt * quantity.uncertainty *
              loweredPower quantity.value exponent))
            { dimension }) := by
  refine (QuantityError.ofRange?_map_bind _ _ _).trans (congrArg _ (funext fun dimension => ?_))
  split
  · exact congrArg Except.ok (ofBase_congr rfl)
  · exact finite?_congr rfl

end Quantity

end Metrology

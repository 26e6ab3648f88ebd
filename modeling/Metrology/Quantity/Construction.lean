import Metrology.Quantity.Basic

/-!
# Quantities given in a unit

A quantity can be given in base units or in a unit of its dimension, and its uncertainty either in
the unit of the value or as a fraction of the value.
-/

namespace Metrology

/-- How an uncertainty is given. -/
inductive UncertaintyKind where
  /-- In the unit of the value. -/
  | absolute
  /-- As a fraction of the value. -/
  | relative
deriving DecidableEq, Repr

/-- The unit that a value is given in. -/
inductive ValueScale where
  | unit
  | base
deriving DecidableEq, Repr

namespace Quantity

/-- The quantity with a value and an uncertainty given in the stated manner. A relative uncertainty
is made absolute before anything is scaled. -/
def ofParts (kind : UncertaintyKind) (scale : ValueScale) (value uncertainty : Float)
    (unit : UnitOfMeasure) : Quantity Float :=
  let absolute :=
    match kind with
    | .absolute => uncertainty
    | .relative => uncertainty * value
  match scale with
  | .unit => ofBase (value * unit.scale) (absolute * unit.scale) unit
  | .base => ofBase value absolute unit

/-- The quantity with a value and an absolute uncertainty given in a unit. -/
def ofUnit (value uncertainty : Float) (unit : UnitOfMeasure) : Quantity Float :=
  ofParts .absolute .unit value uncertainty unit

end Quantity

end Metrology

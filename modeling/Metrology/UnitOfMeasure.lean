import Metrology.Dimension.Basic
import Metrology.Scalar

/-!
# Units of measure

A unit of measure is a dimension together with the factor from the unit to base units: a kilometer
and a meter have one dimension and different scales. The exponents of a product, quotient or power
never depend on the scales, and neither does whether there is a result.
-/

namespace Metrology

/-- A dimension and the number of base units that make up the unit. -/
structure UnitOfMeasure where
  dimension : Dimension
  /-- The factor from this unit to base units. -/
  scale : Float := 1
deriving DecidableEq

namespace UnitOfMeasure

def one : UnitOfMeasure where
  dimension := .dimensionless

/-- The base unit of a unit's dimension. -/
def toBase (unit : UnitOfMeasure) : UnitOfMeasure where
  dimension := unit.dimension

def mul? (left right : UnitOfMeasure) : Option UnitOfMeasure :=
  (left.dimension.mul? right.dimension).map (⟨·, left.scale * right.scale⟩)

def div? (left right : UnitOfMeasure) : Option UnitOfMeasure :=
  (left.dimension.div? right.dimension).map (⟨·, left.scale / right.scale⟩)

def pow? (unit : UnitOfMeasure) (power : Int32) : Option UnitOfMeasure :=
  (unit.dimension.pow? power).map (⟨·, Scalar.power unit.scale power.toInt⟩)

end UnitOfMeasure

end Metrology

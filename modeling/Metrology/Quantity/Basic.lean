import Metrology.Dimension.Expression
import Metrology.Scalar
import Metrology.UnitSystem.Literal

/-!
# Quantities

A quantity is a value with an absolute uncertainty and a unit. Both numbers are held in base units:
a quantity given in another unit is converted once, when it is made, and arithmetic never rescales.
Arithmetic computes with the units that it finds, scales included, and every result is made anew:
the sign of its uncertainty is dropped and the scale of its unit is reset. The type of quantities
says that nothing else makes one.

Uncertainty is propagated for the worst case. Absolute uncertainties add under addition and
subtraction, relative ones under multiplication and division, and a power multiplies the relative
one by the magnitude of its exponent.

The operations are written over a `Scalar`, so that they can be read over `Float` as the calculator
performs them and over `Rat` as exact formulas.
-/

namespace Metrology

/-- The operations that can leave the range of finite numbers. -/
inductive Operation where
  | addition
  | subtraction
  | multiplication
  | division
  | exponentiation
  | parsing
deriving DecidableEq, Repr

/-- The name of an operation as a message gives it. -/
def Operation.name : Operation → String
  | addition => "addition"
  | subtraction => "subtraction"
  | multiplication => "multiplication"
  | division => "division"
  | exponentiation => "exponentiation"
  | parsing => "parsing"

/-- The reasons for which an operation on quantities has no result. -/
inductive QuantityError where
  | malformedLiteral (text : String)
  | dimensionMismatch (left right : Dimension)
  /-- A quantity is asked for in a unit of another dimension. -/
  | incompatibleUnits (dimension : Dimension) (literal : String)
  /-- The value or the uncertainty would be infinite or undefined. -/
  | nonFiniteResult (operation : Operation)
  /-- A unit literal has no meaning, or an exponent left its range. -/
  | unit (error : UnitError)
deriving DecidableEq, Repr

namespace QuantityError

def message : QuantityError → String
  | malformedLiteral text => "Could not parse number: " ++ text
  | dimensionMismatch left right =>
      "Can't combine values with different units: " ++ left.name ++ " and " ++ right.name
  | incompatibleUnits dimension literal =>
      "Can not convert " ++ dimension.name ++ " to incompatible units \"" ++ literal ++ "\""
  | nonFiniteResult operation => operation.name ++ " produced a non-finite result"
  | unit error => error.message

/-- The result of an operation on units, with its error as one of quantities. -/
def ofUnit {α : Type} : Except UnitError α → Except QuantityError α
  | .ok result => .ok result
  | .error error => .error (.unit error)

/-- The result of an operation on dimensions, where no result means that an exponent left its
range. -/
def ofRange? {α : Type} (result : Option α) : Except QuantityError α :=
  ofUnit (UnitError.ofRange? result)

end QuantityError

/-- A value with an absolute uncertainty, and the unit that both are held in. -/
@[ext]
structure Quantity (α : Type) [Scalar α] where
  value : α
  uncertainty : α
  heldUnit : UnitOfMeasure
  /-- The uncertainty has lost the sign that it was given with. -/
  unsigned : ∃ given, uncertainty = Scalar.abs given
  /-- The unit is what is left of one when its scale is reset. -/
  inBase : ∃ given : UnitOfMeasure, heldUnit = given.toBase
deriving DecidableEq

namespace Quantity

variable {α : Type} [Scalar α]

def dimension (quantity : Quantity α) : Dimension :=
  quantity.heldUnit.dimension

/-- The quantity with a value and uncertainty given in base units. The sign of the uncertainty and
the scale of the unit mean nothing. -/
def ofBase (value uncertainty : α) (unit : UnitOfMeasure) : Quantity α where
  value := value
  uncertainty := Scalar.abs uncertainty
  heldUnit := unit.toBase
  unsigned := ⟨uncertainty, rfl⟩
  inBase := ⟨unit, rfl⟩

def dimensionless (value : α) : Quantity α :=
  ofBase value Scalar.zero .one

/-- The uncertainty as a fraction of the value. An exact quantity has none, whatever its value. -/
def relativeUncertainty (quantity : Quantity α) : α :=
  if Scalar.isZero quantity.uncertainty then Scalar.zero
  else Scalar.abs (quantity.uncertainty / quantity.value)

/-- Whether two quantities can be added: they have one dimension. -/
def isCompatible (left right : Quantity α) : Bool :=
  left.dimension == right.dimension

/-- The quantity with a computed value and uncertainty, provided that both are finite. -/
def finite? (operation : Operation) (value uncertainty : α) (unit : UnitOfMeasure) :
    Except QuantityError (Quantity α) :=
  if Scalar.isFinite value && Scalar.isFinite uncertainty then
    .ok (ofBase value uncertainty unit)
  else
    .error (.nonFiniteResult operation)

/-- The sum of two quantities of one dimension. -/
def add? (left right : Quantity α) : Except QuantityError (Quantity α) :=
  if left.isCompatible right then
    finite? .addition (left.value + right.value) (left.uncertainty + right.uncertainty)
      left.heldUnit
  else
    .error (.dimensionMismatch left.dimension right.dimension)

/-- The difference of two quantities of one dimension. -/
def sub? (left right : Quantity α) : Except QuantityError (Quantity α) :=
  if left.isCompatible right then
    finite? .subtraction (left.value - right.value) (left.uncertainty + right.uncertainty)
      left.heldUnit
  else
    .error (.dimensionMismatch left.dimension right.dimension)

def mul? (left right : Quantity α) : Except QuantityError (Quantity α) := do
  let unit ← QuantityError.ofRange? (left.heldUnit.mul? right.heldUnit)
  finite? .multiplication (left.value * right.value)
    (Scalar.abs (left.uncertainty * right.value) + Scalar.abs (right.uncertainty * left.value))
    unit

/-- The quotient of two quantities. Division by zero is refused before anything else is looked
at. -/
def div? (left right : Quantity α) : Except QuantityError (Quantity α) :=
  if Scalar.isZero right.value then .error (.nonFiniteResult .division)
  else do
    let unit ← QuantityError.ofRange? (left.heldUnit.div? right.heldUnit)
    let quotient := left.value / right.value
    finite? .division quotient
      (Scalar.abs (left.uncertainty / right.value) +
        Scalar.abs (right.uncertainty * quotient / right.value))
      unit

/-- The derivative's factor `value ^ (exponent - 1)`. Below the 32-bit range the power is formed in
one step. -/
def loweredPower (value : α) (exponent : Int32) : α :=
  if Dimension.InRange (exponent.toInt - 1) then Scalar.power value (exponent.toInt - 1)
  else Scalar.directPower value (exponent.toInt - 1)

/-- An integer power of a quantity. The power zero is the exact number one, and an exact quantity
has exact powers. -/
def pow? (quantity : Quantity α) (exponent : Int32) : Except QuantityError (Quantity α) := do
  let unit ← QuantityError.ofRange? (quantity.heldUnit.pow? exponent)
  if exponent = 0 then return ofBase Scalar.one Scalar.zero unit
  else
    let slope := loweredPower quantity.value exponent
    let uncertainty :=
      if Scalar.isZero quantity.uncertainty then Scalar.zero
      else Scalar.abs (Scalar.ofInt exponent.toInt * quantity.uncertainty * slope)
    finite? .exponentiation (Scalar.power quantity.value exponent.toInt) uncertainty unit

/-- The quantity of opposite sign. -/
def neg (quantity : Quantity α) : Quantity α :=
  ofBase (-quantity.value) quantity.uncertainty quantity.heldUnit

end Quantity

end Metrology

import Metrology.Quantity.Basic

/-!
# Kinds of quantity

A quantity of a fixed kind, such as a length or a force, is a single number in the SI unit of its
kind. This file passes between such numbers and quantities with a dimension. Masses are given in
grams and stored in kilograms; every other kind is given in the unit it is stored in. Passing to a
fixed kind checks the dimension and drops the uncertainty.
-/

namespace Metrology

/-- The kinds of quantity that have a number of their own. -/
inductive Kind where
  | length
  | mass
  | time
  | electricCurrent
  | thermodynamicTemperature
  | luminousIntensity
  | area
  | volume
  | frequency
  | velocity
  | acceleration
  | force
  | energy
  | power
  | pressure
  | electricCharge
  | electricPotential
deriving DecidableEq, Repr

namespace Kind

def dimension : Kind → Dimension
  | length => ⟨1, 0, 0, 0, 0, 0⟩
  | mass => ⟨0, 1, 0, 0, 0, 0⟩
  | time => ⟨0, 0, 1, 0, 0, 0⟩
  | electricCurrent => ⟨0, 0, 0, 1, 0, 0⟩
  | thermodynamicTemperature => ⟨0, 0, 0, 0, 1, 0⟩
  | luminousIntensity => ⟨0, 0, 0, 0, 0, 1⟩
  | area => ⟨2, 0, 0, 0, 0, 0⟩
  | volume => ⟨3, 0, 0, 0, 0, 0⟩
  | frequency => ⟨0, 0, -1, 0, 0, 0⟩
  | velocity => ⟨1, 0, -1, 0, 0, 0⟩
  | acceleration => ⟨1, 0, -2, 0, 0, 0⟩
  | force => ⟨1, 1, -2, 0, 0, 0⟩
  | energy => ⟨2, 1, -2, 0, 0, 0⟩
  | power => ⟨2, 1, -3, 0, 0, 0⟩
  | pressure => ⟨-1, 1, -2, 0, 0, 0⟩
  | electricCharge => ⟨0, 0, 1, 1, 0, 0⟩
  | electricPotential => ⟨2, 1, -3, -1, 0, 0⟩

/-- The factor from the unit that a kind is given in to base units: a thousand where that unit is
built on the kilogram. -/
def toBase : Kind → Float
  | force | energy | power | pressure | electricPotential => 1000
  | _ => 1

/-- The stored number of a value in the unit that a kind is given in. -/
def store (kind : Kind) (value : Float) : Float :=
  if kind = mass then value * 0.001 else value

/-- The value of a stored number in the unit that a kind is given in. -/
def value (kind : Kind) (stored : Float) : Float :=
  if kind = mass then stored * 1000 else stored

/-- The exact quantity that a stored number stands for. -/
def toQuantity (kind : Kind) (stored : Float) : Quantity Float :=
  .ofBase (kind.value stored * kind.toBase) 0 { dimension := kind.dimension }

/-- The stored number of a quantity, provided that it has the dimension of the kind. -/
def ofQuantity? (kind : Kind) (quantity : Quantity Float) : Except QuantityError Float :=
  if quantity.dimension = kind.dimension then .ok (kind.store (quantity.value / kind.toBase))
  else .error (.dimensionMismatch quantity.dimension kind.dimension)

end Kind

end Metrology

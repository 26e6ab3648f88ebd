/-!
# Scalars

The arithmetic of quantities is written once over a `Scalar` and read in two ways. Over `Float` it
is the arithmetic the calculator performs, every operation rounded; over `Rat` the same formulas are
exact, which is the reading in which laws about the propagation of uncertainty hold.
-/

namespace Metrology

/-- The operations that the arithmetic of quantities needs of its numbers. -/
class Scalar (α : Type) extends Add α, Sub α, Mul α, Div α, Neg α where
  zero : α
  one : α
  abs : α → α
  /-- Whether a number equals zero; a negative zero does. -/
  isZero : α → Bool
  /-- Whether a number is neither infinite nor undefined. -/
  isFinite : α → Bool
  ofInt : Int → α
  /-- A power formed in one step, for the exponents that repeated squaring is not used for. -/
  directPower : α → Int → α

namespace Scalar

instance : Scalar Float where
  zero := 0
  one := 1
  abs := Float.abs
  isZero number := number == 0
  isFinite := Float.isFinite
  ofInt := Float.ofInt
  directPower base exponent := base.pow (Float.ofInt exponent)

instance : Scalar Rat where
  zero := 0
  one := 1
  abs := Rat.abs
  isZero number := number == 0
  isFinite _ := true
  ofInt := Rat.ofInt
  directPower base exponent := base ^ exponent

variable {α : Type} [Scalar α]

/-- The partial product times `base ^ exponent`, by repeated squaring: the binary digits of the
exponent are taken from the lowest on, and each one set multiplies the partial product. -/
def squaring (exponent : Nat) (partialProduct base : α) : α :=
  let product := if exponent % 2 = 1 then partialProduct * base else partialProduct
  if _ : exponent / 2 = 0 then product else squaring (exponent / 2) product (base * base)
termination_by exponent
decreasing_by omega

/-- An integer power by repeated squaring. A negative power is the reciprocal of the positive
one. -/
def power (base : α) (exponent : Int) : α :=
  let magnitude := squaring exponent.natAbs one base
  if exponent < 0 then one / magnitude else magnitude

end Scalar

end Metrology

/-!
# Decimal numbers

A decimal number is a sign, a coefficient and a power of ten, kept exactly. Number literals, table
cells and the digits printed for a floating-point number all pass through this type.
`Decimal.toFloat` rounds such a number to the nearest binary64 number.
-/

namespace Metrology

/-- The number `±coefficient · 10 ^ exponent`. -/
@[ext]
structure Decimal where
  /-- Whether the number is written with a minus sign; zero keeps its sign too. -/
  negative : Bool
  /-- The digits, read as one natural number. -/
  coefficient : Nat
  /-- The power of ten that the coefficient is multiplied by. -/
  exponent : Int
deriving DecidableEq, Repr

namespace Decimal

/-- The decimal digits of a natural number, most significant first. -/
def digitsOf (number : Nat) : List Char :=
  Nat.toDigits 10 number

/-- The natural number that a run of decimal digits denotes. The empty run denotes zero. -/
def ofDigits (digits : List Char) : Nat :=
  Nat.ofDigitChars 10 digits 0

/-- Reading back the digits of a number gives the number. -/
@[simp]
theorem ofDigits_digitsOf (number : Nat) : ofDigits (digitsOf number) = number :=
  Nat.ofDigitChars_toDigits (by decide) (by decide)

/-- Every character written for a natural number is a decimal digit. -/
theorem isDigit_of_mem_digitsOf {number : Nat} {character : Char}
    (member : character ∈ digitsOf number) : character.isDigit = true :=
  Nat.isDigit_of_mem_toDigits (by decide) (by decide) member

/-- The number of digits before the decimal point once the coefficient is written out: the number
is at least `10 ^ (point - 1)` and below `10 ^ point` unless it is zero. -/
def point (number : Decimal) : Int :=
  (digitsOf number.coefficient).length + number.exponent

/-- The magnitude rounded to the nearest binary64 number, ties to even. Numbers whose decimal point
lies far outside the binary64 range are settled by its position alone, so that no power of ten
larger than the range calls for is ever formed. -/
def magnitudeToFloat (number : Decimal) : Float :=
  if number.coefficient = 0 ∨ number.point < -330 then 0
  else if 310 < number.point then 1 / 0
  else Float.ofScientific number.coefficient (number.exponent < 0) number.exponent.natAbs

/-- The nearest binary64 number, ties to even; past the largest finite number an infinity. -/
def toFloat (number : Decimal) : Float :=
  if number.negative then -number.magnitudeToFloat else number.magnitudeToFloat

/-- The same number with no zero at the end of its coefficient. -/
def stripZeros (negative : Bool) (coefficient : Nat) (exponent : Int) : Decimal :=
  if _ : coefficient ≠ 0 ∧ coefficient % 10 = 0 then
    stripZeros negative (coefficient / 10) (exponent + 1)
  else
    ⟨negative, coefficient, exponent⟩
termination_by coefficient
decreasing_by omega

end Decimal

end Metrology

import Metrology.Decimal.Shortest

/-!
# Written numbers

A `Decimal.Style` says how a shortest decimal is laid out as text: which magnitudes are written
positionally, how the exponent of the others is written, and what stands for the numbers that are
not finite. `Decimal.Style.render` writes a floating-point number in a style.
-/

namespace Metrology.Decimal

structure Style where
  /-- The choice between two shortest decimals that are equally near. -/
  tie : Tie
  /-- The least exponent of the leading digit that is written positionally. -/
  leastPositional : Int
  /-- The least exponent of the leading digit that is too large to be written positionally. -/
  leastScientific : Int
  /-- Whether a whole number written positionally ends in a point and a zero. -/
  wholeFraction : Bool
  exponentPlus : List Char
  /-- What is written for a number that is no number. -/
  notANumber : List Char
  infinity : List Char
  negativeInfinity : List Char

/-- Digits with the decimal point after the first `point` of them, filled up with zeros where the
point lies outside the digits. -/
def positional (wholeFraction : Bool) (digits : List Char) (point : Int) : List Char :=
  if point ≤ 0 then '0' :: '.' :: (List.replicate (-point).toNat '0' ++ digits)
  else if point.toNat < digits.length then
    digits.take point.toNat ++ '.' :: digits.drop point.toNat
  else
    digits ++ List.replicate (point.toNat - digits.length) '0' ++
      (if wholeFraction then ['.', '0'] else [])

/-- Digits with the decimal point after the first of them, followed by a power of ten. -/
def scientific (exponentPlus : List Char) (digits : List Char) (exponent : Int) : List Char :=
  let mantissa :=
    match digits with
    | first :: second :: rest => first :: '.' :: second :: rest
    | few => few
  let sign := if exponent < 0 then ['-'] else exponentPlus
  mantissa ++ 'e' :: (sign ++ digitsOf exponent.natAbs)

namespace Style

/-- The text of a decimal in a style. Zero is written positionally. -/
def layOut (style : Style) (decimal : Decimal) : List Char :=
  let digits := digitsOf decimal.coefficient
  let exponent := decimal.point - 1
  let magnitude :=
    if decimal.coefficient = 0 then positional style.wholeFraction digits 1
    else if style.leastPositional ≤ exponent ∧ exponent < style.leastScientific then
      positional style.wholeFraction digits decimal.point
    else scientific style.exponentPlus digits exponent
  if decimal.negative then '-' :: magnitude else magnitude

/-- The text of a floating-point number in a style. -/
def render (style : Style) (number : Float) : List Char :=
  if number.isNaN then style.notANumber
  else if number.isFinite then style.layOut (shortest style.tie number)
  else if 0 < number then style.infinity
  else style.negativeInfinity

end Style

end Metrology.Decimal

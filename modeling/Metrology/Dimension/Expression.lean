import Metrology.Decimal.Basic
import Metrology.Dimension.Basic

/-!
# Dimensions in base-unit symbols

Every dimension can be written with the symbols of the base units alone: those with a positive
exponent in a row, a slash, those with a negative exponent in a row. An exponent of one is not
written, a denominator that stands alone has the numerator `1`, and the dimension of pure numbers
is the empty text.
-/

namespace Metrology.Dimension

/-- A base unit raised to a positive power, as it is written. -/
def factorText (base : BaseUnit) (power : Nat) : List Char :=
  base.symbol ++ if 1 < power then '^' :: Decimal.digitsOf power else []

/-- The base units with a positive exponent, each with its power. -/
def numeratorText (dimension : Dimension) : List Char :=
  BaseUnit.all.flatMap fun base =>
    let exponent := (dimension.exponent base).toInt
    if 0 < exponent then factorText base exponent.natAbs else []

/-- The base units with a negative exponent, each with its power turned positive. -/
def denominatorText (dimension : Dimension) : List Char :=
  BaseUnit.all.flatMap fun base =>
    let exponent := (dimension.exponent base).toInt
    if exponent < 0 then factorText base exponent.natAbs else []

/-- A dimension in base-unit symbols. -/
def baseText (dimension : Dimension) : List Char :=
  match dimension.numeratorText, dimension.denominatorText with
  | numerator, [] => numerator
  | [], denominator => '1' :: '/' :: denominator
  | numerator, denominator => numerator ++ '/' :: denominator

/-- A dimension in base-unit symbols, as messages and reports show it. -/
def expression (dimension : Dimension) : String :=
  String.ofList dimension.baseText

/-- A dimension as it is named in a message, where an empty text would be lost. -/
def name (dimension : Dimension) : String :=
  if dimension.baseText.isEmpty then "(dimensionless)" else dimension.expression

end Metrology.Dimension

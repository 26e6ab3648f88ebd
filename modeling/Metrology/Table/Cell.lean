import Metrology.Decimal.Integer
import Metrology.Decimal.Numeral

/-!
# Numbers in table cells

A cell for a whole number holds a 32-bit integer, in decimal or, after `0x`, in hexadecimal digits.
A cell for a real number holds a decimal number with an optional sign and power of ten, or one of
the words for the numbers that are not finite.
-/

namespace Metrology.Cell

def readInteger? (cell : String) : Option Int32 :=
  match cell.toList with
  | '0' :: 'x' :: digits => Decimal.readInt32? 16 digits
  | text => Decimal.readInt32? 10 text

/-- The exponent that a text consists of: nothing, or `e` or `E` and an integer. -/
def readExponent? : List Char → Option Int
  | [] => some 0
  | 'e' :: text | 'E' :: text => Decimal.readInt? 10 text
  | _ => none

/-- The number without a sign that a text consists of. -/
def readMagnitude? (text : List Char) : Option Float :=
  let word := text.map Char.toLower
  if word = "inf".toList ∨ word = "infinity".toList then some (1 / 0)
  else if word = "nan".toList then some (0 / 0)
  else do
    let (whole, fraction, rest) ← Numeral.readMantissa? text
    let exponent ← readExponent? rest
    let digits := fraction.getD []
    let decimal : Decimal :=
      ⟨false, Decimal.ofDigits (whole ++ digits), exponent - digits.length⟩
    return decimal.toFloat

def readReal? (cell : String) : Option Float :=
  match cell.toList with
  | '+' :: text => readMagnitude? text
  | '-' :: text => (readMagnitude? text).map fun magnitude => -magnitude
  | text => readMagnitude? text

end Metrology.Cell

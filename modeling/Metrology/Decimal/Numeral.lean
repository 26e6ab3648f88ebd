import Metrology.Decimal.Basic

/-!
# Numerals

A numeral is the written form of a decimal number inside a quantity literal: an optional minus sign,
digits with an optional decimal point, and an optional power of ten. The readers of this file take
the longest numeral that a text begins with and return it with the rest of the text. Nothing is
lost: `Numeral.text` writes a numeral as it stood.
-/

namespace Metrology

structure PowerOfTen where
  /-- How the power is announced: `E`, `e`, `x10^` or `*10^`. -/
  mark : List Char
  negative : Bool
  /-- The digits of the exponent, at least one. -/
  digits : List Char
deriving DecidableEq, Repr

structure Numeral where
  negative : Bool
  whole : List Char
  /-- The digits after the decimal point, if there is a point. -/
  fraction : Option (List Char)
  power : Option PowerOfTen
deriving DecidableEq, Repr

namespace PowerOfTen

/-- A power of ten as it is written. -/
def text (power : PowerOfTen) : List Char :=
  power.mark ++ (if power.negative then ['-'] else []) ++ power.digits

/-- The exponent that a power of ten stands for. -/
def exponent (power : PowerOfTen) : Int :=
  if power.negative then -Decimal.ofDigits power.digits else Decimal.ofDigits power.digits

/-- The mark that a text begins with, and what follows it. -/
def readMark? : List Char → Option (List Char × List Char)
  | 'E' :: rest => some (['E'], rest)
  | 'e' :: rest => some (['e'], rest)
  | 'x' :: '1' :: '0' :: '^' :: rest => some (['x', '1', '0', '^'], rest)
  | '*' :: '1' :: '0' :: '^' :: rest => some (['*', '1', '0', '^'], rest)
  | _ => none

/-- The power of ten that a text begins with, and what follows it. A mark without digits is none. -/
def read? (text : List Char) : Option (PowerOfTen × List Char) := do
  let (mark, afterMark) ← readMark? text
  let (negative, unsigned) :=
    match afterMark with
    | '-' :: rest => (true, rest)
    | rest => (false, rest)
  let (digits, rest) := unsigned.span Char.isDigit
  if digits.isEmpty then none else some (⟨mark, negative, digits⟩, rest)

end PowerOfTen

namespace Numeral

def text (numeral : Numeral) : List Char :=
  (if numeral.negative then ['-'] else []) ++ numeral.whole ++
    (match numeral.fraction with
      | some digits => '.' :: digits
      | none => []) ++
    (match numeral.power with
      | some power => power.text
      | none => [])

def toDecimal (numeral : Numeral) : Decimal where
  negative := numeral.negative
  coefficient := Decimal.ofDigits (numeral.whole ++ numeral.fraction.getD [])
  exponent := (numeral.power.elim 0 PowerOfTen.exponent) - (numeral.fraction.getD []).length

/-- The digits with an optional point that a text begins with, and what follows them. There is a
digit on at least one side of the point. -/
def readMantissa? (text : List Char) : Option (List Char × Option (List Char) × List Char) :=
  match text.span Char.isDigit with
  | ([], '.' :: afterPoint) =>
      match afterPoint.span Char.isDigit with
      | ([], _) => none
      | (fraction, rest) => some ([], some fraction, rest)
  | ([], _) => none
  | (whole, '.' :: afterPoint) =>
      let (fraction, rest) := afterPoint.span Char.isDigit
      some (whole, some fraction, rest)
  | (whole, rest) => some (whole, none, rest)

/-- The numeral without a sign that a text begins with, and what follows it. -/
def readUnsigned? (text : List Char) : Option (Numeral × List Char) := do
  let (whole, fraction, afterMantissa) ← readMantissa? text
  match PowerOfTen.read? afterMantissa with
  | some (power, rest) => return (⟨false, whole, fraction, some power⟩, rest)
  | none => return (⟨false, whole, fraction, none⟩, afterMantissa)

/-- The numeral that a text begins with, and what follows it. -/
def read? (text : List Char) : Option (Numeral × List Char) :=
  match text with
  | '-' :: unsigned => do
      let (numeral, rest) ← readUnsigned? unsigned
      return ({ numeral with negative := true }, rest)
  | unsigned => readUnsigned? unsigned

end Numeral

end Metrology

import Metrology.Decimal.Numeral
import Metrology.Quantity.Construction

/-!
# Quantity literals

A quantity literal such as `9.81+-0.02m/s2` is a numeral, optionally a plus-minus sign and the
numeral of the uncertainty, and a unit literal. Each part is the longest text of its form, and what
does not complete a part belongs to the unit. `QuantityLiteral.read?` divides a text into these
parts, and `Quantity.parse` gives the quantity they stand for.
-/

namespace Metrology

structure QuantityLiteral where
  value : Numeral
  /-- The plus-minus sign as it is written, and the numeral of the uncertainty. -/
  uncertainty : Option (List Char × Numeral)
  /-- The unit literal, with the blanks it is written with. -/
  unit : List Char
deriving DecidableEq, Repr

namespace QuantityLiteral

def text (literal : QuantityLiteral) : List Char :=
  literal.value.text ++
    (match literal.uncertainty with
      | some (sign, numeral) => sign ++ numeral.text
      | none => []) ++
    literal.unit

/-- The uncertainty that a text begins with, and what follows it. -/
def readUncertainty? : List Char → Option ((List Char × Numeral) × List Char)
  | '+' :: '-' :: text => do
      let (numeral, rest) ← Numeral.readUnsigned? text
      return ((['+', '-'], numeral), rest)
  | '±' :: text => do
      let (numeral, rest) ← Numeral.readUnsigned? text
      return ((['±'], numeral), rest)
  | _ => none

/-- The parts of a quantity literal. Text with a line feed in it is none. -/
def read? (text : List Char) : Option QuantityLiteral := do
  if text.contains '\n' then none
  else
    let (value, afterValue) ← Numeral.read? text
    match readUncertainty? afterValue with
    | some (uncertainty, unit) => return ⟨value, some uncertainty, unit⟩
    | none => return ⟨value, none, afterValue⟩

/-- The uncertainty that a literal states; without one the value is exact. -/
def uncertaintyValue (literal : QuantityLiteral) : Float :=
  literal.uncertainty.elim 0 fun (_, numeral) => numeral.toDecimal.toFloat

end QuantityLiteral

namespace Quantity

/-- The quantity that a text stands for. Blanks around the literal mean nothing. -/
def parse (system : UnitSystem) (text : String) : Except QuantityError (Quantity Float) :=
  match QuantityLiteral.read? (Text.trim text.toList) with
  | none => .error (.malformedLiteral text)
  | some literal => do
      let unit ← QuantityError.ofUnit (system.parse (String.ofList literal.unit))
      let quantity := ofUnit literal.value.toDecimal.toFloat literal.uncertaintyValue unit
      if quantity.value.isFinite && quantity.uncertainty.isFinite then return quantity
      else throw (.nonFiniteResult .parsing)

end Quantity

end Metrology

import Metrology.Decimal.Style
import Metrology.Quantity.Construction
import Metrology.Text.Escape

/-!
# Readings

A reading is a quantity as it is shown: its value and uncertainty in some unit, and the text of that
unit. A reading has two written forms, plain text and JSON, and each has its own way with numbers.
-/

namespace Metrology

/-- A value and an uncertainty in a unit, and the text of the unit. -/
structure Reading where
  value : Float
  uncertainty : Float
  unit : String

namespace Reading

/-- Numbers in plain text are positional from a thousandth to below ten million, whole numbers have
no fraction, and an exponent has no plus sign. Half way between two shortest decimals the larger
magnitude is taken. -/
def plainStyle : Decimal.Style where
  tie := .away
  leastPositional := -3
  leastScientific := 7
  wholeFraction := false
  exponentPlus := []
  notANumber := ['N', 'a', 'N']
  infinity := ['i', 'n', 'f']
  negativeInfinity := ['-', 'i', 'n', 'f']

/-- Numbers in JSON are positional from a hundred-thousandth to below ten to the sixteenth, always
have a fraction there, and a nonnegative exponent has a plus sign. Numbers that are not finite are
null. Half way between two shortest decimals the even last digit is taken. -/
def jsonStyle : Decimal.Style where
  tie := .even
  leastPositional := -5
  leastScientific := 16
  wholeFraction := true
  exponentPlus := ['+']
  notANumber := ['n', 'u', 'l', 'l']
  infinity := ['n', 'u', 'l', 'l']
  negativeInfinity := ['n', 'u', 'l', 'l']

def numberText (number : Float) : String :=
  String.ofList (plainStyle.render number)

/-- A reading in plain text: value, plus-minus sign, uncertainty, and the unit after a blank if
there is one. -/
def text (reading : Reading) : String :=
  numberText reading.value ++ "±" ++ numberText reading.uncertainty ++
    if reading.unit.isEmpty then "" else " " ++ reading.unit

def jsonNumber (number : Float) : String :=
  String.ofList (jsonStyle.render number)

/-- A reading as a JSON object with nothing between its tokens. -/
def json (reading : Reading) : String :=
  "\x7b\"value\":" ++ jsonNumber reading.value ++ ",\"uncertainty\":" ++
    jsonNumber reading.uncertainty ++ ",\"unit\":" ++ Text.jsonString reading.unit ++ "\x7d"

end Reading

namespace Quantity

/-- A quantity as shown in the unit that a unit system prefers for its dimension. -/
def reading (quantity : Quantity Float) (system : UnitSystem) : Reading :=
  let display := system.displayUnit quantity.dimension
  ⟨quantity.value / display.scale, quantity.uncertainty / display.scale, display.symbol⟩

/-- A quantity as shown in a unit that is asked for. The text of the unit is kept as it was
given. -/
def readingIn? (quantity : Quantity Float) (system : UnitSystem) (literal : String) :
    Except QuantityError Reading := do
  let unit ← QuantityError.ofUnit (system.parse literal)
  if unit.dimension = quantity.dimension then
    return ⟨quantity.value / unit.scale, quantity.uncertainty / unit.scale, literal⟩
  else
    throw (.incompatibleUnits quantity.dimension literal)

/-- A quantity as shown in base units. -/
def baseReading (quantity : Quantity Float) : Reading :=
  ⟨quantity.value, quantity.uncertainty, quantity.dimension.expression⟩

end Quantity

end Metrology

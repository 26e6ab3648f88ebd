import Metrology.UnitSystem.Basic

/-!
# The built-in unit system

The units and metric prefixes that are known where no tables are given. Mass is counted in grams, so
every unit that the SI builds on the kilogram has a scale of a thousand or a thousandth.
-/

namespace Metrology.UnitSystem

/-- A unit that results are shown in. -/
private def shown (abbreviation name description : String) (dimension : Dimension) (scale : Float) :
    UnitDefinition :=
  ⟨abbreviation, name, description, ⟨dimension, scale⟩, true⟩

/-- A unit that results are shown in only on request. -/
private def known (abbreviation name description : String) (dimension : Dimension) (scale : Float) :
    UnitDefinition :=
  ⟨abbreviation, name, description, ⟨dimension, scale⟩, false⟩

/-- The built-in units. The exponents are those of meter, gram, second, ampere, kelvin and
candela. -/
def builtinUnits : List UnitDefinition :=
  [shown "m" "meter" "SI base unit of length" ⟨1, 0, 0, 0, 0, 0⟩ 1,
    shown "g" "gram" "Base unit of mass" ⟨0, 1, 0, 0, 0, 0⟩ 1,
    shown "s" "second" "SI base unit of time" ⟨0, 0, 1, 0, 0, 0⟩ 1,
    shown "A" "ampere" "SI base unit of electric current" ⟨0, 0, 0, 1, 0, 0⟩ 1,
    shown "K" "kelvin" "SI base unit of thermodynamic temperature" ⟨0, 0, 0, 0, 1, 0⟩ 1,
    shown "cd" "candela" "SI base unit of luminous intensity" ⟨0, 0, 0, 0, 0, 1⟩ 1,
    shown "Hz" "hertz" "Frequency" ⟨0, 0, -1, 0, 0, 0⟩ 1,
    shown "N" "newton" "Force" ⟨1, 1, -2, 0, 0, 0⟩ 1000,
    shown "Pa" "pascal" "Pressure" ⟨-1, 1, -2, 0, 0, 0⟩ 1000,
    shown "J" "joule" "Energy" ⟨2, 1, -2, 0, 0, 0⟩ 1000,
    shown "W" "watt" "Power" ⟨2, 1, -3, 0, 0, 0⟩ 1000,
    shown "C" "coulomb" "Electric charge" ⟨0, 0, 1, 1, 0, 0⟩ 1,
    shown "V" "volt" "Electric potential" ⟨2, 1, -3, -1, 0, 0⟩ 1000,
    shown "F" "farad" "Capacitance" ⟨-2, -1, 4, 2, 0, 0⟩ 0.001,
    shown "ohm" "ohm" "Electrical resistance" ⟨2, 1, -3, -2, 0, 0⟩ 1000,
    shown "S" "siemens" "Electrical conductance" ⟨-2, -1, 3, 2, 0, 0⟩ 0.001,
    shown "Wb" "weber" "Magnetic flux" ⟨2, 1, -2, -1, 0, 0⟩ 1000,
    shown "T" "tesla" "Magnetic flux density" ⟨0, 1, -2, -1, 0, 0⟩ 1000,
    shown "H" "henry" "Inductance" ⟨2, 1, -2, -2, 0, 0⟩ 1000,
    shown "lx" "lux" "Illuminance" ⟨-2, 0, 0, 0, 0, 1⟩ 1,
    known "Gy" "gray" "Absorbed radiation dose" ⟨2, 0, -2, 0, 0, 0⟩ 1,
    known "L" "liter" "Volume" ⟨3, 0, 0, 0, 0, 0⟩ 0.001,
    known "min" "minute" "Time" ⟨0, 0, 1, 0, 0, 0⟩ 60,
    known "h" "hour" "Time" ⟨0, 0, 1, 0, 0, 0⟩ 3600,
    known "d" "day" "Time" ⟨0, 0, 1, 0, 0, 0⟩ 86400,
    known "yr" "year" "Julian year" ⟨0, 0, 1, 0, 0, 0⟩ 31557600,
    known "in" "inch" "Imperial length" ⟨1, 0, 0, 0, 0, 0⟩ 0.0254,
    known "ft" "foot" "Imperial length" ⟨1, 0, 0, 0, 0, 0⟩ 0.3048,
    known "yd" "yard" "Imperial length" ⟨1, 0, 0, 0, 0, 0⟩ 0.9144,
    known "mi" "mile" "Imperial length" ⟨1, 0, 0, 0, 0, 0⟩ 1609.344,
    known "lb" "pound" "Imperial mass" ⟨0, 1, 0, 0, 0, 0⟩ 453.59237,
    known "lbf" "pound-force" "Imperial force" ⟨1, 1, -2, 0, 0, 0⟩ 4448.2216152605,
    known "psi" "pound per square inch" "Imperial pressure" ⟨-1, 1, -2, 0, 0, 0⟩
      6894757.293168,
    known "atm" "atmosphere" "Standard atmospheric pressure" ⟨-1, 1, -2, 0, 0, 0⟩ 101325000,
    known "bar" "bar" "Pressure" ⟨-1, 1, -2, 0, 0, 0⟩ 100000000,
    known "eV" "electronvolt" "Energy" ⟨2, 1, -2, 0, 0, 0⟩ 1.602176634e-16,
    known "cal" "calorie" "Thermochemical calorie" ⟨2, 1, -2, 0, 0, 0⟩ 4184,
    known "rad" "radian" "Plane angle" ⟨0, 0, 0, 0, 0, 0⟩ 1,
    known "deg" "degree" "Plane angle" ⟨0, 0, 0, 0, 0, 0⟩ 0.017453292519943295]

/-- The built-in metric prefixes. The Greek letter mu and the letter u both stand for a
millionth. -/
def builtinPrefixes : List MetricPrefix :=
  [⟨'p', "pico", -12⟩,
    ⟨'n', "nano", -9⟩,
    ⟨'μ', "micro", -6⟩,
    ⟨'u', "micro", -6⟩,
    ⟨'m', "milli", -3⟩,
    ⟨'c', "centi", -2⟩,
    ⟨'d', "deci", -1⟩,
    ⟨'D', "deka", 1⟩,
    ⟨'h', "hecto", 2⟩,
    ⟨'k', "kilo", 3⟩,
    ⟨'M', "mega", 6⟩,
    ⟨'G', "giga", 9⟩,
    ⟨'T', "tera", 12⟩]

def builtin : UnitSystem :=
  new builtinUnits builtinPrefixes

end Metrology.UnitSystem

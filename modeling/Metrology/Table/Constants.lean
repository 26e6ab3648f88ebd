import Metrology.Constants.Basic
import Metrology.Table.Cell
import Metrology.Table.Fault
import Metrology.Table.Record

/-!
# Tables of constants

A row of a table of constants gives a value in a unit and its uncertainty as a fraction of the
value. The constants known where no table is given are such rows too, so that they are read in
whatever unit system is in use, and are refused where their units have no meaning in it.
-/

namespace Metrology

structure ConstantRow where
  abbreviation : String
  name : String
  description : String
  value : Float
  /-- The uncertainty as a fraction of the value. -/
  uncertainty : Float
  unit : String

namespace ConstantRow

def ofRecord? (record : Table.Record) : Option ConstantRow := do
  return {
    abbreviation := ← record.cell? "abbrev"
    name := ← record.cell? "name"
    description := ← record.cell? "description"
    value := ← Cell.readReal? (← record.cell? "value")
    uncertainty := ← Cell.readReal? (← record.cell? "uncertainty")
    unit := ← record.cell? "unit"
  }

/-- The constant that a row defines in a unit system. -/
def accept (system : UnitSystem) (row : ConstantRow) : Except RowFault Constant :=
  match system.parse row.unit with
  | .error error => .error (.constantUnit row.abbreviation error)
  | .ok unit =>
      .ok ⟨row.abbreviation, row.name, row.description,
        Quantity.ofParts .relative .unit row.value row.uncertainty unit⟩

def builtin : List ConstantRow :=
  [⟨"pi", "Pi",
      "Ratio of a circle's circumference to its diameter", 3.141592653589793, 0, ""⟩,
    ⟨"c", "Speed of light",
      "Speed of light in vacuum", 299792458, 0, "m/s"⟩,
    ⟨"h", "Planck constant",
      "Quantum of action", 6.62607015e-34, 0, "Js"⟩,
    ⟨"hbar", "Reduced Planck constant",
      "Planck constant over 2 pi", 1.054571817e-34, 0, "Js"⟩,
    ⟨"G", "Gravitational constant",
      "Newtonian constant of gravitation", 6.67430e-11, 2.2e-5, "m3/kgs2"⟩,
    ⟨"N_A", "Avogadro constant",
      "Entities per mole", 6.02214076e23, 0, ""⟩,
    ⟨"e", "Elementary charge",
      "Charge of a proton", 1.602176634e-19, 0, "C"⟩,
    ⟨"k_B", "Boltzmann constant",
      "Energy per kelvin per particle", 1.380649e-23, 0, "J/K"⟩,
    ⟨"m_u", "Atomic mass constant",
      "One twelfth of the mass of carbon-12", 1.66053906660e-27, 3.0e-10, "kg"⟩,
    ⟨"m_e", "Electron mass",
      "Rest mass of the electron", 9.1093837015e-31, 3.0e-10, "kg"⟩,
    ⟨"m_p", "Proton mass",
      "Rest mass of the proton", 1.67262192369e-27, 3.1e-10, "kg"⟩,
    ⟨"eps_0", "Vacuum permittivity",
      "Electric constant", 8.8541878128e-12, 1.5e-10, "F/m"⟩,
    ⟨"mu_0", "Vacuum permeability",
      "Magnetic constant", 1.25663706212e-6, 1.5e-10, "H/m"⟩,
    ⟨"g_n", "Standard gravity",
      "Standard acceleration of gravity", 9.80665, 0, "m/s2"⟩,
    ⟨"sigma", "Stefan-Boltzmann constant",
      "Black body radiated power per area", 5.670374419e-8, 0, "W/m2K4"⟩]

end ConstantRow

namespace Constants

/-- The constants of a table in a unit system; without a table they are the built-in ones. -/
def ofTable (system : UnitSystem) : Option String → Except TableError Constants
  | some table => do
      let constants ←
        acceptRows ConstantRow.ofRecord? (ConstantRow.accept system) 2 (Table.dataRecords table)
      return ofList constants
  | none => do
      let constants ← acceptRows some (ConstantRow.accept system) 2 ConstantRow.builtin
      return ofList constants

end Constants

end Metrology

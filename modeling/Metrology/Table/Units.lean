import Metrology.Table.Cell
import Metrology.Table.Fault
import Metrology.Table.Record
import Metrology.UnitSystem.Builtin

/-!
# Tables of units and prefixes

A unit system can be read from two tables, one of units and one of metric prefixes. The rows keep
their order, and none is dropped or merged.
-/

namespace Metrology

structure UnitRow where
  abbreviation : String
  name : String
  description : String
  dimension : Dimension
  scale : Float
  /-- The flag that says whether the unit is a standard one. -/
  standard : String

namespace UnitRow

def ofRecord? (record : Table.Record) : Option UnitRow := do
  let integer? (column : String) : Option Int32 := do
    Cell.readInteger? (← record.cell? column)
  return {
    abbreviation := ← record.cell? "abbrev"
    name := ← record.cell? "name"
    description := ← record.cell? "description"
    dimension := {
      meter := ← integer? "m"
      gram := ← integer? "g"
      second := ← integer? "s"
      ampere := ← integer? "A"
      kelvin := ← integer? "K"
      candela := ← integer? "cd"
    }
    scale := ← Cell.readReal? (← record.cell? "factor")
    standard := ← record.cell? "standard"
  }

/-- The meaning of a flag: `T` or `t` for a standard unit, `F`, `f` or nothing for another. -/
def readFlag? (written : String) : Option Bool :=
  if written = "T" ∨ written = "t" then some true
  else if written = "F" ∨ written = "f" ∨ written = "" then some false
  else none

def accept (row : UnitRow) : Except RowFault UnitDefinition :=
  if row.abbreviation.isEmpty then .error .emptyAbbreviation
  else if !(row.scale.isFinite && 0 < row.scale) then .error (.scaleNotPositive row.abbreviation)
  else
    match readFlag? row.standard with
    | none => .error (.standardFlag row.standard)
    | some standard =>
        .ok ⟨row.abbreviation, row.name, row.description, ⟨row.dimension, row.scale⟩, standard⟩

end UnitRow

structure PrefixRow where
  symbol : String
  name : String
  power : Int32

namespace PrefixRow

def ofRecord? (record : Table.Record) : Option PrefixRow := do
  return {
    symbol := ← record.cell? "symbol"
    name := ← record.cell? "name"
    power := ← Cell.readInteger? (← record.cell? "power")
  }

def accept (row : PrefixRow) : Except RowFault MetricPrefix :=
  match row.symbol.toList with
  | [symbol] => .ok ⟨symbol, row.name, row.power⟩
  | _ => .error (.prefixSymbol row.symbol)

end PrefixRow

namespace UnitSystem

def readUnits (table : String) : Except TableError (List UnitDefinition) :=
  acceptRows UnitRow.ofRecord? UnitRow.accept 2 (Table.dataRecords table)

def readPrefixes (table : String) : Except TableError (List MetricPrefix) :=
  acceptRows PrefixRow.ofRecord? PrefixRow.accept 2 (Table.dataRecords table)

/-- The unit system of two tables. A table that is not given is the built-in one. The table of units
is read first. -/
def ofTables (unitTable prefixTable : Option String) : Except TableError UnitSystem := do
  let units ← unitTable.elim (.ok builtinUnits) readUnits
  let prefixes ← prefixTable.elim (.ok builtinPrefixes) readPrefixes
  return new units prefixes

end UnitSystem

end Metrology

import Metrology.UnitSystem.Literal

/-!
# Faults of tables

A table is refused as a whole at its first fault. A row that can be read but says something
impossible is reported with its line, counting the header as line one and leaving empty lines out.
-/

namespace Metrology

/-- What is wrong with a row that can be read. -/
inductive RowFault where
  | emptyAbbreviation
  /-- The scale of a unit is not a positive number. -/
  | scaleNotPositive (abbreviation : String)
  /-- The flag for standard units is neither true nor false. -/
  | standardFlag (written : String)
  | prefixSymbol (written : String)
  | constantUnit (abbreviation : String) (error : UnitError)
deriving DecidableEq, Repr

def RowFault.message : RowFault → String
  | emptyAbbreviation => "empty abbreviation"
  | scaleNotPositive abbreviation => "scale factor of " ++ abbreviation ++ " must be positive"
  | standardFlag written => "standard flag must be T or F, got " ++ written
  | prefixSymbol written => "prefix symbol \"" ++ written ++ "\" must be one character"
  | constantUnit abbreviation error => "constant " ++ abbreviation ++ ": " ++ error.message

/-- The reasons for which a table is refused. -/
inductive TableError where
  | missingFile
  /-- A record lacks a cell, or a cell does not hold what its column needs. -/
  | unreadable
  | invalidRow (line : Nat) (fault : RowFault)
deriving DecidableEq, Repr

/-- The text of the error of an impossible row. -/
def TableError.rowMessage (line : Nat) (fault : RowFault) : String :=
  "Invalid row " ++ toString line ++ ": " ++ fault.message

/-- The results of reading and accepting the rows of a table in order, up to the first fault. Each
row is accepted before the next one is read. `line` is the line of the first row. -/
def acceptRows {Source Row Result : Type} (read? : Source → Option Row)
    (accept : Row → Except RowFault Result) (line : Nat) :
    List Source → Except TableError (List Result)
  | [] => .ok []
  | source :: rest =>
      match read? source with
      | none => .error .unreadable
      | some row =>
          match accept row with
          | .error fault => .error (.invalidRow line fault)
          | .ok result => do
              let results ← acceptRows read? accept (line + 1) rest
              return result :: results

end Metrology

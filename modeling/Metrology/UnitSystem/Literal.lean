import Metrology.Text.Blank
import Metrology.UnitSystem.Segmentation

/-!
# Unit literals

A unit literal is one run of units, or two with a slash between them. Blanks mean nothing. The run
`1` and the empty literal stand for no unit. `UnitSystem.parse` multiplies the terms of the first
run and divides by those of the second, one after the other from left to right.
-/

namespace Metrology

/-- The reasons for which a unit literal has no meaning. -/
inductive UnitError where
  /-- A run is empty or is no sequence of units. -/
  | malformed (text : String)
  | multipleSlashes (text : String)
  | exponentOverflow
deriving DecidableEq, Repr

namespace UnitError

def message : UnitError → String
  | malformed text => "Can't parse units \"" ++ text ++ "\""
  | multipleSlashes text => "Units contain multiple slashes (/): \"" ++ text ++ "\""
  | exponentOverflow => "Unit exponent out of range"

/-- The result of an operation on exponents, where no result means that one left the range. -/
def ofRange? {α : Type} : Option α → Except UnitError α
  | some result => .ok result
  | none => .error .exponentOverflow

end UnitError

/-- The unit that a term stands for, raised to its exponent times a sign. -/
def Term.unitToThe? (term : Term) (sign : Int32) : Option UnitOfMeasure :=
  let unit := term.unit.unit
  let factor : UnitOfMeasure :=
    ⟨unit.dimension, unit.scale * Scalar.power 10 term.prefixPower.toInt⟩
  factor.pow? (term.exponent * sign)

namespace UnitSystem

/-- A unit times the terms of a run, each raised to its exponent times a sign. -/
def multiplyTerms (sign : Int32) : UnitOfMeasure → List Term → Except UnitError UnitOfMeasure
  | unit, [] => .ok unit
  | unit, term :: terms => do
      let factor ← UnitError.ofRange? (term.unitToThe? sign)
      let product ← UnitError.ofRange? (unit.mul? factor)
      multiplyTerms sign product terms

/-- A unit times the units of a run, or divided by them where the sign is negative. The whole
literal is what an error quotes. -/
def multiplyRun (system : UnitSystem) (literal : String) (sign : Int32) (unit : UnitOfMeasure)
    (run : List Char) : Except UnitError UnitOfMeasure :=
  if run.isEmpty then .error (.malformed literal)
  else if run = ['1'] then .ok unit
  else
    match system.segment? run with
    | none => .error (.malformed literal)
    | some terms => multiplyTerms sign unit terms

/-- The unit that a literal stands for. -/
def parse (system : UnitSystem) (literal : String) : Except UnitError UnitOfMeasure :=
  match (Text.compact literal.toList).splitOn '/' with
  | [] | [[]] => .ok .one
  | [numerator] => system.multiplyRun literal 1 .one numerator
  | [numerator, denominator] => do
      let unit ← system.multiplyRun literal 1 .one numerator
      system.multiplyRun literal (-1) unit denominator
  | _ => .error (.multipleSlashes literal)

end UnitSystem

end Metrology

import Std.Data.TreeMap
import Metrology.Dimension.Expression
import Metrology.Text.Column
import Metrology.UnitOfMeasure

/-!
# Unit systems

A unit system is the list of units and the list of metric prefixes that unit literals may use. Both
lists keep the order in which they were given: where two units share an abbreviation the earlier one
is meant, and the first standard unit of a dimension is the one results are shown in. An index holds
the position of the unit that each abbreviation means. It is built once, together with the unit
system, and look-up goes through it.
-/

namespace Metrology

/-- A unit with a name of its own. -/
structure UnitDefinition where
  abbreviation : String
  name : String
  description : String
  unit : UnitOfMeasure
  /-- Whether results are preferably shown in this unit. -/
  standard : Bool

/-- A metric prefix: one character that multiplies a unit by a power of ten. -/
structure MetricPrefix where
  symbol : Char
  name : String
  power : Int32

def MetricPrefix.factor (metricPrefix : MetricPrefix) : Float :=
  Scalar.power 10 metricPrefix.power.toInt

/-- The unit a result is shown in: its text, and the number of base units to divide by. -/
structure DisplayUnit where
  symbol : String
  scale : Float

/-- An index of units: the position of the first unit with each abbreviation. -/
class UnitIndex (units : List UnitDefinition) where
  positions : Std.TreeMap String Nat
  indexed : ∀ abbreviation, positions[abbreviation]? =
    units.findIdx? fun definition => definition.abbreviation == abbreviation

namespace UnitIndex

/-- The index with the positions of further units, where an abbreviation that has a position keeps
it. -/
def add (positions : Std.TreeMap String Nat) (units : List (UnitDefinition × Nat)) :
    Std.TreeMap String Nat :=
  units.foldl
    (fun positions (definition, position) => positions.insertIfNew definition.abbreviation position)
    positions

/-- A position is entered for an abbreviation that has none. -/
theorem getElem?_insertIfNew (positions : Std.TreeMap String Nat) (entered abbreviation : String)
    (position : Nat) :
    (positions.insertIfNew entered position)[abbreviation]? =
      positions[abbreviation]?.or (if entered = abbreviation then some position else none) := by
  simp only [Std.TreeMap.getElem?_insertIfNew, Std.TreeMap.mem_iff_isSome_getElem?,
    Std.LawfulEqOrd.compare_eq_iff_eq]
  by_cases same : entered = abbreviation
  · subst same
    cases positions[entered]? <;> simp
  · simp [same]

/-- An abbreviation without a position is given that of the first unit with it. -/
theorem getElem?_add (units : List UnitDefinition) (first : Nat)
    (positions : Std.TreeMap String Nat) (abbreviation : String) :
    (add positions (units.zipIdx first))[abbreviation]? = positions[abbreviation]?.or
      ((units.findIdx? fun definition => definition.abbreviation == abbreviation).map
        (· + first)) := by
  induction units generalizing first positions with
  | nil => simp [add]
  | cons definition units ih =>
      change (add (positions.insertIfNew definition.abbreviation first)
        (units.zipIdx (first + 1)))[abbreviation]? = _
      rw [ih, getElem?_insertIfNew, Option.or_assoc, List.findIdx?_cons]
      by_cases same : definition.abbreviation = abbreviation
      · simp [same]
      · simp [same, Function.comp_def, Nat.add_assoc, Nat.add_comm 1]

/-- Every list of units has its index. -/
instance ofUnits (units : List UnitDefinition) : UnitIndex units where
  positions := add ∅ units.zipIdx
  indexed abbreviation := by simp [getElem?_add]

end UnitIndex

/-- The units and metric prefixes that unit literals may use, and an index of the units. -/
structure UnitSystem where
  units : List UnitDefinition
  prefixes : List MetricPrefix
  [index : UnitIndex units]

namespace UnitSystem

variable {system : UnitSystem} {abbreviation : String} {position : Nat}

/-- The unit system of given units and prefixes, with the index that is built of the units. -/
def new (units : List UnitDefinition) (prefixes : List MetricPrefix) : UnitSystem :=
  ⟨units, prefixes⟩

/-- The position of the unit that an abbreviation means. -/
def position? (system : UnitSystem) (abbreviation : String) : Option Nat :=
  system.index.positions[abbreviation]?

theorem position?_eq_findIdx? (system : UnitSystem) (abbreviation : String) :
    system.position? abbreviation =
      system.units.findIdx? fun definition => definition.abbreviation == abbreviation :=
  system.index.indexed abbreviation

theorem position_lt (found : system.position? abbreviation = some position) :
    position < system.units.length := by
  rw [position?_eq_findIdx?, List.findIdx?_eq_some_iff_getElem] at found
  exact found.1

/-- The unit that an abbreviation means. -/
def get? (system : UnitSystem) (abbreviation : String) : Option UnitDefinition :=
  match found : system.position? abbreviation with
  | some position => some (system.units.get ⟨position, position_lt found⟩)
  | none => none

/-- An abbreviation means the first unit with it. -/
theorem get?_eq_find? (system : UnitSystem) (abbreviation : String) :
    system.get? abbreviation =
      system.units.find? fun definition => definition.abbreviation == abbreviation := by
  rw [List.find?_eq_bind_findIdx?_getElem?, ← position?_eq_findIdx?]
  unfold get?
  split
  · rename_i position found
    simp [found, List.getElem?_eq_getElem (position_lt found)]
  · rename_i notFound
    simp [notFound]

/-- The unit that results of a dimension are shown in: the first standard unit of that dimension,
else the base units written out. -/
def displayUnit (system : UnitSystem) (dimension : Dimension) : DisplayUnit :=
  let preferred := system.units.find? fun definition =>
    definition.standard && definition.unit.dimension == dimension
  match preferred with
  | some definition => ⟨definition.abbreviation, definition.unit.scale⟩
  | none => ⟨dimension.expression, 1⟩

/-- The listing of all units, one to a line. -/
def listing (system : UnitSystem) : String :=
  Text.joinLines <|
    Text.listingLine 25 "Name:" "Abbreviation:" "Description:" ::
      system.units.map fun definition =>
        Text.listingLine 25 definition.name definition.abbreviation definition.description

end UnitSystem

end Metrology

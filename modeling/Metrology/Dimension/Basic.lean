/-!
# Dimensions

The physical dimension of a quantity is a vector of integer exponents over six base units. Exponents
are 32-bit integers: an operation whose exact result has a component outside that range has no
result at all, so no operation ever wraps around.
-/

namespace Metrology

/-- The base units. Mass is carried in grams, so that every metric prefix applies alike. -/
inductive BaseUnit where
  | meter
  | gram
  | second
  | ampere
  | kelvin
  | candela
deriving DecidableEq, Repr

namespace BaseUnit

/-- The base units in the order in which their exponents are listed and written. -/
def all : List BaseUnit :=
  [meter, gram, second, ampere, kelvin, candela]

theorem mem_all (base : BaseUnit) : base ∈ all := by
  cases base <;> decide

def symbol : BaseUnit → List Char
  | meter => ['m']
  | gram => ['g']
  | second => ['s']
  | ampere => ['A']
  | kelvin => ['K']
  | candela => ['c', 'd']

end BaseUnit

/-- A vector of exponents, one for each base unit. -/
@[ext]
structure Dimension where
  meter : Int32 := 0
  gram : Int32 := 0
  second : Int32 := 0
  ampere : Int32 := 0
  kelvin : Int32 := 0
  candela : Int32 := 0
deriving DecidableEq, Repr

namespace Dimension

def exponent (dimension : Dimension) : BaseUnit → Int32
  | .meter => dimension.meter
  | .gram => dimension.gram
  | .second => dimension.second
  | .ampere => dimension.ampere
  | .kelvin => dimension.kelvin
  | .candela => dimension.candela

def ofExponents (exponents : BaseUnit → Int32) : Dimension where
  meter := exponents .meter
  gram := exponents .gram
  second := exponents .second
  ampere := exponents .ampere
  kelvin := exponents .kelvin
  candela := exponents .candela

@[simp]
theorem exponent_ofExponents (exponents : BaseUnit → Int32) (base : BaseUnit) :
    (ofExponents exponents).exponent base = exponents base := by
  cases base <;> rfl

/-- Dimensions with the same exponents are the same. -/
theorem ext_exponent {left right : Dimension}
    (agree : ∀ base, left.exponent base = right.exponent base) : left = right :=
  Dimension.ext (agree .meter) (agree .gram) (agree .second) (agree .ampere) (agree .kelvin)
    (agree .candela)

/-- Whether an integer can be an exponent. -/
def InRange (exponent : Int) : Prop :=
  -0x80000000 ≤ exponent ∧ exponent < 0x80000000

instance (exponent : Int) : Decidable (InRange exponent) :=
  inferInstanceAs (Decidable (_ ∧ _))

/-- The dimension with given integer exponents, if each of them is in range. -/
def ofInts? (exponents : BaseUnit → Int) : Option Dimension :=
  if BaseUnit.all.all fun base => InRange (exponents base) then
    some (ofExponents fun base => Int32.ofInt (exponents base))
  else
    none

def dimensionless : Dimension := {}

def ofBase (base : BaseUnit) : Dimension :=
  ofExponents fun other => if other = base then 1 else 0

def isDimensionless (dimension : Dimension) : Bool :=
  BaseUnit.all.all fun base => dimension.exponent base == 0

def mul? (left right : Dimension) : Option Dimension :=
  ofInts? fun base => (left.exponent base).toInt + (right.exponent base).toInt

def div? (left right : Dimension) : Option Dimension :=
  ofInts? fun base => (left.exponent base).toInt - (right.exponent base).toInt

/-- The dimension of an integer power: every exponent is multiplied by it. -/
def pow? (dimension : Dimension) (power : Int32) : Option Dimension :=
  ofInts? fun base => (dimension.exponent base).toInt * power.toInt

end Dimension

end Metrology

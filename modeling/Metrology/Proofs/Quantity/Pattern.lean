import Mathlib.Data.List.TakeWhile
import Metrology.Proofs.Quantity.Reader
import Metrology.Proofs.Text.Pattern

/-!
# The pattern of quantity literals

Quantity literals are specified by a regular expression with five groups: the mantissa and the
integer of the value, those of the uncertainty, and the unit. Letters that may begin a power of ten
or an uncertainty may also belong to a unit, so that the pattern matches many texts in several ways.
Its preferred way is the one that `QuantityLiteral.read?` takes, which never goes back.
-/

namespace Metrology

namespace Pattern

/-- The digits with an optional point that are a mantissa without a sign. -/
def mantissa : Pattern :=
  choice
    (sequence (atLeastOne Char.isDigit)
      (optional (sequence (character '.') (many Char.isDigit))))
    (sequence (character '.') (atLeastOne Char.isDigit))

/-- A pattern after an optional minus sign. -/
def signed (pattern : Pattern) : Pattern :=
  sequence (optional (character '-')) pattern

/-- The mark of a power of ten. -/
def mark : Pattern :=
  choice (sequence (one fun character => character == 'x' || character == '*') (word "10^".toList))
    (one fun character => character == 'E' || character == 'e')

/-- A power of ten, its integer in a group. -/
def power (number : Nat) : Pattern :=
  sequence mark (group number (signed (atLeastOne Char.isDigit)))

def plusMinus : Pattern :=
  choice (word ['+', '-']) (character '±')

/-- A mantissa in a group, and a power of ten if there is one. -/
def numeral (mantissa : Pattern) (mantissaGroup powerGroup : Nat) : Pattern :=
  sequence (group mantissaGroup mantissa) (optional (power powerGroup))

/-- The unit: all that is left of a text of one line. -/
def unit : Pattern :=
  sequence (group 5 (many (· != '\n'))) atEnd

/-- The pattern of quantity literals. -/
def literal : Pattern :=
  sequence (numeral (signed mantissa) 1 2)
    (sequence (optional (sequence plusMinus (numeral mantissa 3 4))) unit)

end Pattern

namespace LiteralGrammar

/-- The groups of a numeral: the mantissa, and the integer of a power of ten if there is one. -/
def WrittenNumeral.groups (numeral : WrittenNumeral) (mantissa power : Nat) :
    List (Nat × List Char) :=
  (mantissa, numeral.mantissa) :: (numeral.power.map fun (_, integer) => (power, integer)).toList

/-- The groups of a literal by their numbers. -/
def WrittenLiteral.groups (literal : WrittenLiteral) : List (Nat × List Char) :=
  literal.value.groups 1 2 ++
    (literal.uncertainty.elim [] fun (_, numeral) => numeral.groups 3 4) ++ [(5, literal.unit)]

end LiteralGrammar

namespace Pattern

open LiteralGrammar

variable {text rest : List Char} {pattern : Pattern} {way : Way}

section Numeral

variable {mantissaGroup powerGroup : Nat}

end Numeral

section Literal

end Literal

end Pattern

end Metrology

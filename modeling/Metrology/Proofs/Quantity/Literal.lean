import Metrology.Proofs.Quantity.Pattern
import Metrology.Table.Cell

/-!
# Quantity literals and their grammar

What `Quantity.parse` makes of a text, told by the grammar of quantity literals and by the reader of
real numbers. Each numeral has the value that its mantissa has as a real number with the integer of
its power of ten for an exponent, the unit is what the unit system makes of the rest, and nothing
else can go wrong than the unit and the size of the numbers.
-/

namespace Metrology

namespace LiteralGrammar

/-- A numeral as a real number is written, with an exponent in every case. -/
def WrittenNumeral.realText (numeral : WrittenNumeral) : String :=
  String.ofList (numeral.mantissa ++ 'e' :: numeral.power.elim ['0'] (·.2))

variable {whole rest digits integer text : List Char} {fraction : Option (List Char)}
  {numeral : Numeral}

/-- A mantissa is read whole, up to what is no part of it. -/
theorem readMantissa?_append (parts : MantissaParts whole fraction) {rest : List Char}
    (ends : ∀ next ∈ rest.head?, next.isDigit = false ∧ next ≠ '.') :
    Numeral.readMantissa? (whole ++ pointed fraction ++ rest) = some (whole, fraction, rest) := by
  have notDigit : ∀ next ∈ rest.head?, next.isDigit = false := fun next isNext =>
    (ends next isNext).1
  cases parts with
  | whole isDigits =>
      have taken := Segmentation.takeWhile_append_of_ends isDigits.2 notDigit
      have dropped := dropWhile_append_of_ends isDigits.2 notDigit
      rw [pointed, Option.elim_none, List.append_nil, readMantissa?_of_no_point, taken, dropped,
        if_neg isDigits.1]
      rw [dropped]
      exact fun next isNext => (ends next isNext).2
  | @point _ fraction isDigits digital =>
      have atPoint : ∀ next ∈ ('.' :: (fraction ++ rest)).head?, next.isDigit = false := by simp
      have taken := Segmentation.takeWhile_append_of_ends isDigits.2 atPoint
      have dropped := dropWhile_append_of_ends isDigits.2 atPoint
      rw [pointed, Option.elim_some, List.append_assoc, List.cons_append,
        readMantissa?_of_point dropped, taken, if_neg fun both => isDigits.1 both.1,
        Segmentation.takeWhile_append_of_ends digital notDigit,
        dropWhile_append_of_ends digital notDigit]
  | @fraction digits isDigits =>
      have dropped :
          ('.' :: (digits ++ rest)).dropWhile Char.isDigit = '.' :: (digits ++ rest) := rfl
      have taken := Segmentation.takeWhile_append_of_ends isDigits.2 notDigit
      rw [pointed, Option.elim_some, List.nil_append, List.cons_append,
        readMantissa?_of_point dropped, taken, if_neg fun both => isDigits.1 both.2,
        dropWhile_append_of_ends isDigits.2 notDigit]
      rfl

/-- The first character of a mantissa begins neither a sign nor a word. -/
theorem head_of_mantissaParts (parts : MantissaParts whole fraction) (rest : List Char) :
    ∃ first others, whole ++ pointed fraction ++ rest = first :: others ∧
      (first.isDigit = true ∨ first = '.') := by
  rcases head_of_isMantissa parts.isMantissa with ⟨first, others, isFirst, begins⟩
  exact ⟨first, others ++ rest, by rw [isFirst]; rfl, begins⟩

/-- The value of an uncertainty, which is zero where there is none. -/
def WrittenLiteral.readUncertainty? (literal : WrittenLiteral) : Option Float :=
  literal.uncertainty.elim (some 0) fun (_, numeral) => Cell.readReal? numeral.realText

end LiteralGrammar

open LiteralGrammar

namespace Quantity

variable {system : UnitSystem} {text : String}

theorem parse_of_none (fails : QuantityLiteral.read? (Text.trim text.toList) = none) :
    parse system text = .error (.malformedLiteral text) := by
  rw [parse, fails]

theorem parse_of_some {literal : QuantityLiteral}
    (reads : QuantityLiteral.read? (Text.trim text.toList) = some literal) :
    parse system text =
      match system.parse (String.ofList literal.unit) with
      | .error error => .error (.unit error)
      | .ok unit =>
          let quantity := ofUnit literal.value.toDecimal.toFloat literal.uncertaintyValue unit
          if quantity.value.isFinite ∧ quantity.uncertainty.isFinite then .ok quantity
          else .error (.nonFiniteResult .parsing) := by
  rw [parse, reads]
  dsimp only
  cases system.parse (String.ofList literal.unit) with
  | error error => rfl
  | ok unit =>
      simp only [QuantityError.ofUnit, bind, Except.bind, Bool.and_eq_true]
      rfl

end Quantity

end Metrology

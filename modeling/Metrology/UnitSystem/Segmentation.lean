import Metrology.UnitSystem.Basic

/-!
# Segmentation of a run of units

In a unit literal units follow one another with nothing between them, so a run such as `kgm2` has to
be cut into terms: an optional prefix, an abbreviation, an optional exponent. Of all ways to cut the
run the one with the fewest terms is meant (`mm` is a millimeter and not a square meter). Among
those, reading from the left, the longer abbreviation is meant (`cd` is a candela and not a
centiday), and then the unit without a prefix.

The cut is found from the right. `choices` gives for every suffix of the run the best first term of
that suffix, and `follow` reads the terms off, each time skipping the characters of the term.
-/

namespace Metrology

/-- One factor of a unit literal. -/
structure Term where
  metricPrefix : Option MetricPrefix
  unit : UnitDefinition
  /-- The exponent, at least one. -/
  exponent : Int32

/-- The power of ten that the prefix of a term stands for. -/
def Term.prefixPower (term : Term) : Int32 :=
  match term.metricPrefix with
  | some metricPrefix => metricPrefix.power
  | none => 0

namespace Segmentation

/-- A term that the text at some position begins with. -/
structure Step where
  term : Term
  width : Nat

/-- The best first term of a text, and the number of terms that the whole text takes with it. -/
structure Choice where
  step : Step
  count : Nat

/-- The exponent that follows an abbreviation and the number of characters that it takes: a caret
and a positive 32-bit number, or a single digit from two to nine, or nothing where neither a caret
nor a digit follows. -/
def readExponent : List Char → Option (Int32 × Nat)
  | [] => some (1, 0)
  | '^' :: text =>
      let digits := text.takeWhile Char.isDigit
      let value := Decimal.ofDigits digits
      if 1 ≤ value ∧ value < 0x80000000 then some (Int32.ofNat value, digits.length + 1) else none
  | character :: _ =>
      if '2' ≤ character ∧ character ≤ '9' then
        some (Int32.ofNat (Decimal.ofDigits [character]), 1)
      else if character.isDigit then none
      else some (1, 0)

/-- The terms with a given prefix that a text begins with, in the order of the units. The text is
what follows the prefix, and the prefix itself takes `taken` characters. -/
def stepsAfter (units : List UnitDefinition) (metricPrefix : Option MetricPrefix) (taken : Nat)
    (text : List Char) : List Step :=
  units.filterMap fun unit => do
    let rest ← unit.abbreviation.toList.isPrefixOf? text
    let (exponent, digits) ← readExponent rest
    return ⟨⟨metricPrefix, unit, exponent⟩, taken + unit.abbreviation.length + digits⟩

/-- The terms that a text begins with: those without a prefix, then those of each prefix row that
fits. -/
def steps (system : UnitSystem) : List Char → List Step
  | [] => stepsAfter system.units none 0 []
  | first :: rest =>
      stepsAfter system.units none 0 (first :: rest) ++
        (system.prefixes.filter fun metricPrefix => metricPrefix.symbol == first).flatMap
          fun metricPrefix => stepsAfter system.units (some metricPrefix) 1 rest

/-- The number of bytes that the abbreviation of a choice takes in UTF-8. -/
def Choice.abbreviationSize (choice : Choice) : Nat :=
  choice.step.term.unit.abbreviation.utf8ByteSize

/-- Whether one choice is strictly better than another: fewer terms, then the longer abbreviation,
then no prefix. -/
def Choice.beats (left right : Choice) : Bool :=
  left.count < right.count ||
    (left.count == right.count &&
      (right.abbreviationSize < left.abbreviationSize ||
        (left.abbreviationSize == right.abbreviationSize &&
          (left.step.term.metricPrefix.isNone && right.step.term.metricPrefix.isSome))))

/-- The number of terms of the best cut of a text, given the choices for all of its nonempty
suffixes. The empty text takes none. -/
def countOf? : List (Option Choice) → Option Nat
  | [] => some 0
  | choice :: _ => choice.map Choice.count

/-- The choice that begins with a step, given the choices for the suffixes after the first
character. A step that takes no character leads nowhere, and neither does one after which the text
cannot be cut. -/
def Step.choice? (later : List (Option Choice)) (step : Step) : Option Choice :=
  match step.width with
  | 0 => none
  | width + 1 => (countOf? (later.drop width)).map fun count => ⟨step, count + 1⟩

/-- The first of the choices that no other beats. -/
def bestOf (candidates : List Choice) : Option Choice :=
  candidates.foldl
    (fun best candidate =>
      match best with
      | none => some candidate
      | some current => if candidate.beats current then some candidate else some current)
    none

/-- For every nonempty suffix of a text, from the longest on, its best first term. -/
def choices (system : UnitSystem) : List Char → List (Option Choice)
  | [] => []
  | first :: rest =>
      let later := choices system rest
      bestOf ((steps system (first :: rest)).filterMap (Step.choice? later)) :: later

/-- The terms that the choices lead to, or nothing where some suffix on the way has no choice. -/
def follow : List (Option Choice) → Option (List Term)
  | [] => some []
  | none :: _ => none
  | some choice :: later =>
      (follow (later.drop (choice.step.width - 1))).map (choice.step.term :: ·)
termination_by choices => choices.length
decreasing_by simp only [List.length_drop, List.length_cons]; omega

end Segmentation

/-- The terms of a run of units, if it can be cut into terms at all. -/
def UnitSystem.segment? (system : UnitSystem) (run : List Char) : Option (List Term) :=
  Segmentation.follow (Segmentation.choices system run)

end Metrology

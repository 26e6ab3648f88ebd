import Metrology.Proofs.Binary64.Quotient
import Metrology.Proofs.Session.Invariant
import Metrology.Proofs.Table.Rows
import Metrology.Table.Constants

/-!
# The numbers that a session shows

Every quantity of a session over the built-in tables is finite in base units, but it is shown in
another unit: each number that is shown is the quotient of a finite number and the scale of a unit,
and nothing checks that the quotient is finite too. It is just if the exact quotient is below the
bound of overflow. A unit at least as large as the base unit is therefore always safe, and a smaller
one shows large quantities as infinities.
-/

namespace Metrology

open Binary64

/-- Whether neither number of a reading is infinite or undefined. -/
structure Reading.IsFinite (reading : Reading) : Prop where
  value : reading.value.isFinite = true
  uncertainty : reading.uncertainty.isFinite = true

namespace Quantity

variable {quantity : Quantity Float} {scale : Float} {system : UnitSystem} {reading : Reading}

/-- Whether both numbers of a quantity stay within the range in a unit of a scale. -/
structure FitsScale (quantity : Quantity Float) (scale : Float) : Prop where
  value : QuotientFits quantity.value scale
  uncertainty : QuotientFits quantity.uncertainty scale

/-- A finite quantity is shown in finite numbers just if it fits the scale that it is shown in. -/
theorem isFinite_reading_iff (finite : quantity.IsFinite) (scale : Float) (unit : String) :
    (Reading.mk (quantity.value / scale) (quantity.uncertainty / scale) unit).IsFinite ↔
      quantity.FitsScale scale := by
  have ofValue := isFinite_div_iff finite.value scale
  have ofUncertainty := isFinite_div_iff finite.uncertainty scale
  constructor
  · rintro ⟨valueFinite, uncertaintyFinite⟩
    exact ⟨ofValue.mp valueFinite, ofUncertainty.mp uncertaintyFinite⟩
  · rintro ⟨valueFits, uncertaintyFits⟩
    exact ⟨ofValue.mpr valueFits, ofUncertainty.mpr uncertaintyFits⟩

/-- A unit at least as large as the base unit fits every finite quantity. -/
theorem fitsScale_of_one_le (finite : quantity.IsFinite) (scaleFinite : scale.isFinite = true)
    (atLeastOne : 1 ≤ exactMagnitude scale) : quantity.FitsScale scale :=
  ⟨quotientFits_of_one_le finite.value scaleFinite atLeastOne,
    quotientFits_of_one_le finite.uncertainty scaleFinite atLeastOne⟩

/-- A conversion divides the numbers of a quantity by the scale of the unit that is asked for. -/
theorem exists_unit_of_readingIn? {literal : String}
    (converted : quantity.readingIn? system literal = .ok reading) :
    ∃ unit, system.parse literal = .ok unit ∧ unit.dimension = quantity.dimension ∧
      reading = ⟨quantity.value / unit.scale, quantity.uncertainty / unit.scale, literal⟩ := by
  unfold readingIn? at converted
  cases isUnit : system.parse literal with
  | error error =>
      rw [isUnit] at converted
      cases converted
  | ok unit =>
      rw [isUnit] at converted
      change (if _ then _ else _) = _ at converted
      split at converted
      · rename_i sameDimension
        cases converted
        exact ⟨unit, rfl, sameDimension, rfl⟩
      · cases converted

end Quantity

namespace UnitSystem

/-- Whether a scale can be divided by: it is finite and not zero. -/
def isDivisor (scale : Float) : Bool :=
  match unpacked scale with
  | .finite .. => true
  | _ => false

theorem isFinite_of_isDivisor {scale : Float} (divides : isDivisor scale = true) :
    scale.isFinite = true ∧ 0 < exactMagnitude scale := by
  unfold isDivisor at divides
  split at divides
  · rename_i sign significand exponent pos isParts
    constructor
    · change (unpacked scale).isFinite = true
      rw [isParts]
      rfl
    · rw [exactMagnitude, isParts]
      exact value_pos pos exponent
  · cases divides

/-- Every unit that the built-in system shows results in has a finite scale that is not zero. -/
theorem isDivisor_displayUnit (dimension : Dimension) :
    isDivisor (builtin.displayUnit dimension).scale = true := by
  have ofUnits : ∀ definition ∈ builtin.units, isDivisor definition.unit.scale = true := by
    decide +kernel
  unfold displayUnit
  dsimp only
  split
  · rename_i definition isPreferred
    exact ofUnits definition (List.mem_of_find?_eq_some isPreferred)
  · exact (by decide +kernel : isDivisor 1 = true)

end UnitSystem

namespace Session

variable {session next : Session} {command : Command} {response : Response}
  {constants : Constants} {quantity : Quantity Float} {reading : Reading} {line : String}

/-- A converted reading shows the new previous answer in the unit that was asked for. -/
theorem exists_unit_of_converted (gives : (session.respond line).1 = .ok (.converted reading)) :
    ∃ unit, session.system.parse reading.unit = .ok unit ∧
      unit.dimension = (session.after line).previous.dimension ∧
      reading = ⟨(session.after line).previous.value / unit.scale,
        (session.after line).previous.uncertainty / unit.scale, reading.unit⟩ := by
  rcases session.success?_cases line with
    ⟨_, failed, _⟩ | ⟨command, response, _, answer, performs⟩
  · rw [gives] at failed
    cases failed
  · rw [gives, Except.ok.injEq] at answer
    subst answer
    generalize session.after line = next at performs ⊢
    cases performs with
    | convert _ converted =>
        rcases Quantity.exists_unit_of_readingIn? converted with ⟨unit, isUnit, sameDimension, rfl⟩
        exact ⟨unit, isUnit, sameDimension, rfl⟩

/-- What is computed to hold of the built-in constants holds of them. -/
theorem holds_of_builtin (isTable : Constants.ofTable .builtin none = .ok constants)
    (property : Constants → Bool)
    (all : (Constants.ofTable .builtin none).toOption.all property = true) :
    property constants = true := by
  rwa [isTable] at all

/-- The built-in constants are finite. -/
theorem isFinite_of_builtin (isTable : Constants.ofTable .builtin none = .ok constants) :
    ∀ constant ∈ constants.entries, constant.quantity.IsFinite := by
  have allFinite := holds_of_builtin isTable
    (fun constants => constants.entries.all fun constant =>
      constant.quantity.value.isFinite && constant.quantity.uncertainty.isFinite)
    (by decide +kernel)
  intro constant member
  have both := List.all_eq_true.mp allFinite constant member
  rw [Bool.and_eq_true] at both
  exact ⟨both.1, both.2⟩

/-- Over the built-in tables every answer is finite in base units, and it is known exactly which
answers are shown in finite numbers. A result is shown in a unit with a finite scale that is not
zero: the exact quotients of its numbers and the scale have to be below the bound of overflow, as
they always are if the scale is one or more. The same holds of a conversion to the unit that was
asked for, except that its scale can also be zero or infinite. -/
theorem shown_finite_iff (isTable : Constants.ofTable .builtin none = .ok constants)
    (lines : List String) (line : String) :
    (∀ quantity,
      (((new .builtin constants).afterAll lines).respond line).1 = .ok (.quantity quantity) →
      let scale := (UnitSystem.builtin.displayUnit quantity.dimension).scale
      quantity.IsFinite ∧ scale.isFinite = true ∧ 0 < exactMagnitude scale ∧
        (1 ≤ exactMagnitude scale → (quantity.reading .builtin).IsFinite) ∧
        ((quantity.reading .builtin).IsFinite ↔
          exactMagnitude quantity.value / exactMagnitude scale < overflowBound ∧
            exactMagnitude quantity.uncertainty / exactMagnitude scale < overflowBound)) ∧
    ∀ reading,
      (((new .builtin constants).afterAll lines).respond line).1 = .ok (.converted reading) →
      ∃ unit, UnitSystem.builtin.parse reading.unit = .ok unit ∧
        let answer := (((new .builtin constants).afterAll lines).after line).previous
        unit.dimension = answer.dimension ∧ answer.IsFinite ∧
          reading = ⟨answer.value / unit.scale, answer.uncertainty / unit.scale, reading.unit⟩ ∧
          (reading.IsFinite ↔ answer.FitsScale unit.scale) := by
  have finiteConstants := isFinite_of_builtin isTable
  have finite : ∀ {lines : List String} {quantity : Quantity Float},
      ((new .builtin constants).afterAll lines).Has quantity → quantity.IsFinite := by
    intro lines quantity has
    exact isFinite_of_has finiteConstants has
  constructor
  · intro quantity gives scale
    have quantityFinite := finite (.response gives)
    rcases UnitSystem.isFinite_of_isDivisor
      (UnitSystem.isDivisor_displayUnit quantity.dimension) with ⟨scaleFinite, scalePos⟩
    have isReading := Quantity.isFinite_reading_iff quantityFinite scale
      (UnitSystem.builtin.displayUnit quantity.dimension).symbol
    change (quantity.reading .builtin).IsFinite ↔ _ at isReading
    refine ⟨quantityFinite, scaleFinite, scalePos, fun atLeastOne => ?_, isReading.trans ?_⟩
    · exact isReading.mpr (Quantity.fitsScale_of_one_le quantityFinite scaleFinite atLeastOne)
    · rw [← quotientFits_iff scaleFinite scalePos.ne', ← quotientFits_iff scaleFinite scalePos.ne']
      exact ⟨fun fits => ⟨fits.value, fits.uncertainty⟩, fun fits => ⟨fits.1, fits.2⟩⟩
  · intro reading gives
    rcases exists_unit_of_converted gives with ⟨unit, isUnit, sameDimension, isReading⟩
    rw [system_afterAll] at isUnit
    have answerFinite :
        (((new .builtin constants).afterAll lines).after line).previous.IsFinite := by
      rw [← afterAll_concat]
      exact finite (.held .previous)
    refine ⟨unit, isUnit, sameDimension, answerFinite, isReading, ?_⟩
    rw [isReading]
    exact Quantity.isFinite_reading_iff answerFinite unit.scale reading.unit

theorem exists_builtin_constants :
    ∃ constants, Constants.ofTable .builtin none = .ok constants := by
  have isSome : (Constants.ofTable .builtin none).toOption.isSome = true := by decide +kernel
  cases isTable : Constants.ofTable .builtin none with
  | error error =>
      rw [isTable] at isSome
      cases isSome
  | ok constants => exact ⟨constants, rfl⟩

/-- The quantity that an answer gives, if it gives one in base units. -/
def quantity? : Except SessionError Response → Option (Quantity Float)
  | .ok (.quantity quantity) => some quantity
  | _ => none

/-- The reading that an answer converts a quantity to, if it does. -/
def converted? : Except SessionError Response → Option Reading
  | .ok (.converted reading) => some reading
  | _ => none

theorem exists_of_any_quantity? {answer : Except SessionError Response}
    {property : Quantity Float → Bool} (any : (quantity? answer).any property = true) :
    ∃ quantity, answer = .ok (.quantity quantity) ∧ property quantity = true := by
  cases answer with
  | error => cases any
  | ok response =>
      cases response with
      | quantity quantity => exact ⟨quantity, rfl, any⟩
      | _ => cases any

theorem exists_of_any_converted? {answer : Except SessionError Response}
    {property : Reading → Bool} (any : (converted? answer).any property = true) :
    ∃ reading, answer = .ok (.converted reading) ∧ property reading = true := by
  cases answer with
  | error => cases any
  | ok response =>
      cases response with
      | converted reading => exact ⟨reading, rfl, any⟩
      | _ => cases any

theorem shown_finite_iff_kilometers :
    ∃ constants, Constants.ofTable .builtin none = .ok constants ∧
      ∃ quantity, ((new .builtin constants).respond "2km").1 = .ok (.quantity quantity) ∧
        (quantity.reading .builtin).IsFinite := by
  rcases exists_builtin_constants with ⟨constants, isTable⟩
  have isMeters := holds_of_builtin isTable
    (fun constants => (quantity? ((new .builtin constants).respond "2km").1).any
      (· == .ofBase 2000 0 ⟨.ofBase .meter, 1⟩))
    (by decide +kernel)
  rcases exists_of_any_quantity? isMeters with ⟨quantity, gives, isQuantity⟩
  have isScale : (UnitSystem.builtin.displayUnit (.ofBase .meter)).scale = 1 := by decide +kernel
  have isOne : exactMagnitude 1 = 2 ^ 52 * 2 ^ (-52 : ℤ) := exactMagnitude_of_finite rfl
  have shown := (shown_finite_iff isTable [] "2km").1 quantity gives
  refine ⟨constants, isTable, quantity, gives, shown.2.2.2.1 ?_⟩
  rw [eq_of_beq isQuantity, Quantity.dimension_ofBase, isScale, isOne]
  norm_num

/-- A large length is finite, but not in picometers, and a large capacitance that is given in
thousands of farads is finite, but not in farads, the unit that it is shown in. -/
theorem not_shown_finite :
    ∃ constants, Constants.ofTable .builtin none = .ok constants ∧
      (∃ reading,
        ((new .builtin constants).respond "1E300m in pm").1 = .ok (.converted reading) ∧
          ¬reading.IsFinite) ∧
      ∃ quantity, ((new .builtin constants).respond "1E308kF").1 = .ok (.quantity quantity) ∧
        ¬(quantity.reading .builtin).IsFinite := by
  rcases exists_builtin_constants with ⟨constants, isTable⟩
  have inPicometers := holds_of_builtin isTable
    (fun constants => (converted? ((new .builtin constants).respond "1E300m in pm").1).any
      fun reading => !reading.value.isFinite)
    (by decide +kernel)
  have inFarads := holds_of_builtin isTable
    (fun constants => (quantity? ((new .builtin constants).respond "1E308kF").1).any
      fun quantity => !(quantity.reading .builtin).value.isFinite)
    (by decide +kernel)
  rcases exists_of_any_converted? inPicometers with ⟨reading, converts, notFinite⟩
  rcases exists_of_any_quantity? inFarads with ⟨quantity, gives, notFiniteEither⟩
  refine ⟨constants, isTable, ⟨reading, converts, fun finite => ?_⟩, quantity, gives,
    fun finite => ?_⟩
  · rw [finite.value] at notFinite
    cases notFinite
  · rw [finite.value] at notFiniteEither
    cases notFiniteEither

end Session

end Metrology

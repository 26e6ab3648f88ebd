import Metrology.Proofs.BaseText.Literal

/-!
# Written dimensions are read again

A dimension is written in base-unit symbols wherever no unit of its own is known for it, and what is
written can be entered again. This file determines the dimensions for which the built-in tables then
give back the same exponents. A magnitude of `2 ^ 31` is written but cannot be read, since powers
are 32-bit numbers; and a single meter before other units is read as the prefix milli of the next
one, so that a newton comes back as a milligram per second squared. All other dimensions come back
as they were.
-/

namespace Metrology.BaseText

open Segmentation UnitSystem

/-- Whether a dimension comes back with the same exponents when it is written in base-unit symbols
and read with the built-in tables. -/
def ComesBack (dimension : Dimension) : Prop :=
  ∃ unit, builtin.parse dimension.expression = .ok unit ∧ unit.dimension = dimension

/-- Whether every magnitude of a dimension can be read and no single meter is written before other
units. -/
structure Legible (dimension : Dimension) : Prop where
  readable : ∀ base, (dimension.exponent base).toInt ≠ -2 ^ 31
  numerator : dimension.meter = 1 →
    ∀ base, base ≠ .meter → (dimension.exponent base).toInt ≤ 0
  denominator : dimension.meter = -1 →
    ∀ base, base ≠ .meter → 0 ≤ (dimension.exponent base).toInt

instance (dimension : Dimension) : Decidable (Legible dimension) :=
  decidable_of_iff (_ ∧ _ ∧ _)
    ⟨fun ⟨readable, numerator, denominator⟩ => ⟨readable, numerator, denominator⟩,
      fun ⟨readable, numerator, denominator⟩ => ⟨readable, numerator, denominator⟩⟩

/-- Whether no other exponent is positive beside a meter with exponent one. -/
def NoneBesideMeter (exponents : BaseUnit → Int) : Prop :=
  exponents .meter = 1 → ∀ base, base ≠ .meter → exponents base ≤ 0

theorem legible_iff {dimension : Dimension} :
    Legible dimension ↔
      (∀ base, dimension.toInts base ≠ -2 ^ 31) ∧ NoneBesideMeter dimension.toInts ∧
        NoneBesideMeter fun base => -dimension.toInts base := by
  have isOne : dimension.meter = 1 ↔ dimension.toInts .meter = 1 :=
    Int32.toInt_inj.symm
  have isMinusOne : dimension.meter = -1 ↔ -dimension.toInts .meter = 1 := by
    rw [Int.neg_eq_comm]
    exact Int32.toInt_inj.symm.trans eq_comm
  constructor
  · rintro ⟨readable, numerator, denominator⟩
    refine ⟨readable, fun single => numerator (isOne.mpr single), fun single base notMeter => ?_⟩
    have positive := denominator (isMinusOne.mpr single) base notMeter
    exact Int.neg_nonpos_of_nonneg positive
  · rintro ⟨readable, numerator, denominator⟩
    refine ⟨readable, fun single => numerator (isOne.mp single), fun single base notMeter => ?_⟩
    have negative := denominator (isMinusOne.mp single) base notMeter
    exact Int.nonneg_of_neg_nonpos negative

theorem exists_cons_of_not_meterAlone {power : BaseUnit → Nat} {bases : List BaseUnit}
    (isRun : IsRun power bases) (notAlone : ¬MeterAlone power bases) :
    power .meter = 1 ∧ ∃ next others, bases = .meter :: next :: others := by
  simp only [MeterAlone, Classical.not_imp] at notAlone
  rcases notAlone with ⟨member, single, notOnly⟩
  refine ⟨single, ?_⟩
  cases bases with
  | nil => cases member
  | cons base tail =>
      rcases List.mem_cons.mp member with rfl | later
      · cases tail with
        | nil => exact absurd rfl notOnly
        | cons next others => exact ⟨next, others, rfl⟩
      · exact False.elim (isRun.meter_notMem_tail later)

theorem meterAlone_iff {exponents : BaseUnit → Int} :
    MeterAlone (powers exponents) (positiveBases exponents) ↔ NoneBesideMeter exponents := by
  constructor
  · intro meterAlone isOne base notMeter
    have only := meterAlone (mem_positiveBases.mpr (by rw [isOne]; decide))
      (by rw [powers, isOne]; decide)
    by_contra positive
    have member := mem_positiveBases.mpr (Int.not_le.mp positive)
    rw [only, List.mem_singleton] at member
    exact notMeter member
  · intro noneBeside
    by_contra notAlone
    have isRun := isRun_positiveBases exponents
    rcases exists_cons_of_not_meterAlone isRun notAlone with ⟨single, next, others, isBases⟩
    rw [isBases] at isRun
    have notMeter : next ≠ .meter := fun same => isRun.meter_notMem_tail (by simp [same])
    have positive : 0 < exponents .meter := mem_positiveBases.mp (by simp [isBases])
    have nextPositive : 0 < exponents next := mem_positiveBases.mp (by simp [isBases])
    have notPositive := noneBeside (by unfold powers at single; omega) next notMeter
    omega

variable {sign : Int32} {literal : String} {unit result : UnitOfMeasure}

/-- Positive exponents without others beside a single meter are read as they are written. -/
theorem exists_readRun_positiveText (literal : String) {exponents : BaseUnit → Int}
    (noneBeside : NoneBesideMeter exponents) (bounded : ∀ base, exponents base < 2 ^ 31)
    (isSign : IsSign sign)
    (fresh : ∀ base, 0 < exponents base → unit.dimension.toInts base = 0) :
    ∃ result, readRun literal sign unit (positiveText exponents) = .ok result ∧
      ∀ base, result.dimension.toInts base =
        unit.dimension.toInts base +
          if 0 < exponents base then sign.toInt * exponents base else 0 := by
  have powersBounded : ∀ base ∈ positiveBases exponents, powers exponents base < 2 ^ 31 := by
    intro base member
    have isBounded := bounded base
    rw [mem_positiveBases] at member
    unfold powers
    omega
  rcases exists_readRun literal (isRun_positiveBases exponents)
    (meterAlone_iff.mpr noneBeside) powersBounded isSign
    (fun base member => fresh base (mem_positiveBases.mp member)) with ⟨result, isResult, isExact⟩
  refine ⟨result, isResult, fun base => ?_⟩
  rw [isExact base]
  simp only [mem_positiveBases]
  split
  · rename_i positive
    rw [powers, Int.natAbs_of_nonneg (Int.le_of_lt positive)]
  · rfl

/-- The meter is lost where others are positive beside a single one. -/
theorem meter_of_readRun_positiveText {exponents : BaseUnit → Int}
    (lost : ¬0 < exponents .meter ∨ ¬NoneBesideMeter exponents)
    (isResult : readRun literal sign unit (positiveText exponents) = .ok result) :
    result.dimension.meter = unit.dimension.meter := by
  have isRun := isRun_positiveBases exponents
  refine meter_of_readRun ?_ isResult
  intro cut best
  rcases lost with notPositive | beside
  · have noMeter : .meter ∉ positiveBases exponents := fun member =>
      notPositive (mem_positiveBases.mp member)
    exact meter_of_reads noMeter
      (reads_of_isCut isRun (meterAlone_of_notMem noMeter) best.isCut)
  · rw [← meterAlone_iff] at beside
    rcases exists_cons_of_not_meterAlone isRun beside with ⟨single, next, others, isBases⟩
    rw [positiveText, isBases] at best
    rw [isBases] at isRun
    exact meter_of_isBestCut isRun single best

theorem comesBack_of_legible {dimension : Dimension} (legible : Legible dimension) :
    ComesBack dimension := by
  rcases legible_iff.mp legible with ⟨readable, numerator, denominator⟩
  have inRange := Dimension.inRange_toInts dimension
  have noUnits : ∀ base, UnitOfMeasure.one.dimension.toInts base = 0 := by
    intro base
    cases base <;> rfl
  rcases exists_readRun_positiveText dimension.expression numerator
    (fun base => (inRange base).2) isSign_one (fun base _ => noUnits base) with
    ⟨above, isAbove, exactAbove⟩
  have boundedBelow : ∀ base, -dimension.toInts base < 2 ^ 31 := by
    intro base
    have isReadable := readable base
    have isInRange := (inRange base).1
    omega
  have freshBelow : ∀ base, 0 < -dimension.toInts base →
      above.dimension.toInts base = 0 := by
    intro base negative
    rw [exactAbove, noUnits, if_neg (by omega), Int.add_zero]
  rcases exists_readRun_positiveText dimension.expression denominator
    boundedBelow isSign_neg_one freshBelow with ⟨result, isResult, exactBelow⟩
  refine ⟨result, ?_, ?_⟩
  · rw [parse_expression, numeratorText_eq, denominatorText_eq, isAbove]
    exact isResult
  · apply Dimension.ext_toInt
    intro base
    rw [exactBelow, exactAbove, noUnits]
    simp only [Int32.reduceToInt]
    split <;> split <;> omega

variable {dimension : Dimension} {above : UnitOfMeasure}

/-- What comes back has been read as a numerator and then a denominator. -/
theorem exists_readRun_of_comesBack (comesBack : ComesBack dimension) :
    ∃ above result, result.dimension = dimension ∧
      readRun dimension.expression 1 .one (positiveText dimension.toInts) = .ok above ∧
      readRun dimension.expression (-1) above (positiveText fun base => -dimension.toInts base) =
        .ok result := by
  rcases comesBack with ⟨result, isResult, same⟩
  rw [parse_expression, numeratorText_eq, denominatorText_eq] at isResult
  rcases bind_eq_ok.mp isResult with ⟨above, isAbove, isBelow⟩
  exact ⟨above, result, same, isAbove, isBelow⟩

/-- If a single meter was written before other units, its exponent would have come back as zero. -/
theorem noneBesideMeter_of_readRun
    (isAbove : readRun literal 1 .one (positiveText dimension.toInts) = .ok above)
    (isResult : readRun literal (-1) above (positiveText fun base => -dimension.toInts base) =
      .ok result)
    (same : result.dimension = dimension) :
    NoneBesideMeter dimension.toInts ∧ NoneBesideMeter fun base => -dimension.toInts base := by
  have isMeter : dimension.toInts .meter = result.dimension.meter.toInt := by
    rw [same]
    rfl
  have noMeter : UnitOfMeasure.one.dimension.meter.toInt = 0 := rfl
  constructor
  · by_contra beside
    have isOne : dimension.toInts .meter = 1 := (Classical.not_imp.mp beside).1
    have notBelow : ¬0 < -dimension.toInts .meter := by omega
    rw [isMeter, meter_of_readRun_positiveText (.inl notBelow) isResult,
      meter_of_readRun_positiveText (.inr beside) isAbove] at isOne
    omega
  · by_contra beside
    have isOne : -dimension.toInts .meter = 1 := (Classical.not_imp.mp beside).1
    have notAbove : ¬0 < dimension.toInts .meter := by omega
    rw [isMeter, meter_of_readRun_positiveText (.inr beside) isResult,
      meter_of_readRun_positiveText (.inl notAbove) isAbove] at isOne
    omega

/-- A magnitude of `2 ^ 31` would not have been read. -/
theorem readable_of_readRun (noneBeside : NoneBesideMeter fun base => -dimension.toInts base)
    (isResult : readRun literal (-1) above (positiveText fun base => -dimension.toInts base) =
      .ok result) (base : BaseUnit) : dimension.toInts base ≠ -2 ^ 31 := by
  intro isLeast
  have member : base ∈ positiveBases fun base => -dimension.toInts base :=
    mem_positiveBases.mpr (by omega)
  have outside : 2 ^ 31 ≤ powers (fun base => -dimension.toInts base) base := by
    simp only [powers, isLeast]
    decide
  rw [positiveText, readRun_eq_error literal (-1) above (isRun_positiveBases _)
    (meterAlone_iff.mpr noneBeside) member outside] at isResult
  cases isResult

theorem legible_of_comesBack (comesBack : ComesBack dimension) : Legible dimension := by
  rcases exists_readRun_of_comesBack comesBack with ⟨above, result, same, isAbove, isResult⟩
  rcases noneBesideMeter_of_readRun isAbove isResult same with ⟨numerator, denominator⟩
  exact legible_iff.mpr ⟨readable_of_readRun denominator isResult, numerator, denominator⟩

/-- Of the dimensions that the built-in tables give to unit literals, just the legible ones come
back. -/
theorem comesBack_of_parse_iff (literal : String) (unit : UnitOfMeasure) :
    builtin.parse literal = .ok unit → (ComesBack unit.dimension ↔ Legible unit.dimension) :=
  fun _ => ⟨legible_of_comesBack, comesBack_of_legible⟩

theorem exists_parse_of_dimension (literal : String) (dimension : Dimension)
    (isDimension : (builtin.parse literal).toOption.map UnitOfMeasure.dimension = some dimension) :
    ∃ unit, builtin.parse literal = .ok unit ∧ unit.dimension = dimension := by
  cases isUnit : builtin.parse literal with
  | error _ =>
      rw [isUnit] at isDimension
      cases isDimension
  | ok unit =>
      rw [isUnit] at isDimension
      exact ⟨unit, rfl, Option.some.inj isDimension⟩

theorem comesBack_lux :
    ∃ unit, builtin.parse "lx" = .ok unit ∧ unit.dimension = ⟨-2, 0, 0, 0, 0, 1⟩ ∧
      ComesBack unit.dimension := by
  rcases exists_parse_of_dimension "lx" ⟨-2, 0, 0, 0, 0, 1⟩ (by decide +kernel) with
    ⟨unit, accepted, isDimension⟩
  refine ⟨unit, accepted, isDimension, (comesBack_of_parse_iff "lx" unit accepted).mpr ?_⟩
  rw [isDimension]
  decide

/-- A newton is written as `mg/s^2` and comes back as a milligram per second squared. -/
theorem not_comesBack_newton :
    ∃ unit reread, builtin.parse "N" = .ok unit ∧ unit.dimension = ⟨1, 1, -2, 0, 0, 0⟩ ∧
      builtin.parse unit.dimension.expression = .ok reread ∧
      reread.dimension = ⟨0, 1, -2, 0, 0, 0⟩ ∧ ¬ComesBack unit.dimension := by
  rcases exists_parse_of_dimension "N" ⟨1, 1, -2, 0, 0, 0⟩ (by decide +kernel) with
    ⟨unit, accepted, isNewton⟩
  rcases exists_parse_of_dimension (⟨1, 1, -2, 0, 0, 0⟩ : Dimension).expression
    ⟨0, 1, -2, 0, 0, 0⟩ (by decide +kernel) with ⟨reread, isReread, isOther⟩
  rw [← isNewton] at isReread
  refine ⟨unit, reread, accepted, isNewton, isReread, isOther, ?_⟩
  rintro ⟨again, isAgain, same⟩
  rw [isReread, Except.ok.injEq] at isAgain
  rw [← isAgain, isOther, isNewton] at same
  revert same
  decide

end Metrology.BaseText

import Metrology.Proofs.BaseText.Run

/-!
# Runs of base units cut into terms

As long as a run of base units does not begin with a single meter before other units, every cut of
it has one term for each base unit, and the terms that were written make up the best cut. A single
meter before other units is lost: as the prefix milli it joins the next unit, which takes one term
less.
-/

namespace Metrology.BaseText

open Segmentation UnitSystem

variable {power : BaseUnit → Nat} {base : BaseUnit} {bases : List BaseUnit}
  {rest : List Char} {written : WrittenTerm builtin}

/-- A base unit with its power, as a term of the built-in tables. -/
def baseWritten (power : BaseUnit → Nat) (base : BaseUnit) : WrittenTerm builtin :=
  ⟨none, baseRow base, powerText (power base), Int32.ofNat (power base)⟩

/-- The same with the prefix milli. -/
def milliWritten (power : BaseUnit → Nat) (base : BaseUnit) : WrittenTerm builtin :=
  ⟨some milliRow, baseRow base, powerText (power base), Int32.ofNat (power base)⟩

/-- Whether a term may stand for a base unit with its power where a run is cut: it is the term that
was written, or one that is less preferred. -/
structure Reads (power : BaseUnit → Nat) (base : BaseUnit) (written : WrittenTerm builtin) :
    Prop where
  bounded : power base < 2 ^ 31
  preferred : written = baseWritten power base ∨ (baseWritten power base).Precedes written
  meter : base ≠ .meter → written.unit.unit.dimension.meter = 0

theorem runText_cons :
    runText power (base :: bases) =
      base.symbol ++ (powerText (power base) ++ runText power bases) := by
  rw [runText, List.flatMap_cons, factorText_eq, List.append_assoc]
  rfl

theorem meter_baseRow (notMeter : base ≠ .meter) :
    (unitAt (baseRow base)).unit.dimension.meter = 0 := by
  rw [dimension_baseRow]
  cases base <;> first | rfl | exact absurd rfl notMeter

theorem begins_baseWritten (isRun : IsRun power (base :: bases))
    (bounded : power base < 2 ^ 31) :
    (baseWritten power base).Begins (runText power (base :: bases)) (runText power bases) := by
  have exponentWritten := writtenExponent_powerText (isRun.positive base (by simp)) bounded
    isRun.endsPower
  refine ⟨?_, exponentWritten⟩
  simp [runText_cons, WrittenTerm.text, symbols_eq, baseWritten]

theorem begins_milliWritten (isRun : IsRun power (.meter :: base :: bases))
    (single : power .meter = 1) (bounded : power base < 2 ^ 31) :
    (milliWritten power base).Begins (runText power (.meter :: base :: bases))
      (runText power bases) := by
  have exponentWritten := writtenExponent_powerText (isRun.tail.positive base (by simp)) bounded
    isRun.tail.endsPower
  refine ⟨?_, exponentWritten⟩
  have isMilli : BaseUnit.meter.symbol = [(prefixAt milliRow).symbol] := rfl
  simp [runText_cons, WrittenTerm.text, symbols_eq, milliWritten, isMilli, single, powerText]

/-- The first term of a cut reads the first base unit, unless that is a single meter before other
units. -/
theorem reads_of_begins (isRun : IsRun power (base :: bases))
    (meterAlone : MeterAlone power (base :: bases))
    (begins : written.Begins (runText power (base :: bases)) rest) :
    Reads power base written ∧ rest = runText power bases := by
  have positive := isRun.positive base (by simp)
  rw [runText_cons] at begins
  rcases rows_of_begins isRun.follows begins with
    ⟨noPrefix, isRow, same⟩ | ⟨rfl, isPrefix, isRow, same⟩ | ⟨rfl, isPrefix, same⟩
  · rcases eq_powerText_of_writtenExponent begins.2 same positive isRun.endsPower with
      ⟨bounded, isText, isExponent, rfl⟩
    refine ⟨⟨bounded, .inl ?_, ?_⟩, rfl⟩
    · rcases written with ⟨_, _, _, _⟩
      simp_all [baseWritten]
    · intro notMeter
      rw [unit_eq, isRow]
      exact meter_baseRow notMeter
  · rcases eq_powerText_of_writtenExponent begins.2 same positive isRun.endsPower with
      ⟨bounded, _, _, rfl⟩
    refine ⟨⟨bounded, .inr (.inl ?_), ?_⟩, rfl⟩
    · rw [WrittenTerm.abbreviationSize, unit_eq, isRow]
      exact abbreviation_sizes
    · intro _
      rw [unit_eq, isRow]
      exact meter_dayRow
  · have hasHead := exists_head_abbreviation written.unitRow
    cases isAbbreviation : (unitAt written.unitRow).abbreviation.toList with
    | nil => simp [isAbbreviation] at hasHead
    | cons first others =>
        rw [isAbbreviation] at hasHead same
        unfold powerText at same
        split at same
        · simp_all
        · have isOne : power .meter = 1 := by omega
          have noOthers := meterAlone (by simp) isOne
          simp only [List.cons.injEq, true_and] at noOthers
          subst noOthers
          simp [runText] at same

/-- Every cut of a run has one term for each of its base units. -/
theorem reads_of_isCut {cut : List (WrittenTerm builtin)} (isRun : IsRun power bases)
    (meterAlone : MeterAlone power bases) (isCut : IsCut builtin (runText power bases) cut) :
    List.Forall₂ (Reads power) bases cut := by
  induction bases generalizing cut with
  | nil =>
      cases isCut with
      | nil => exact .nil
      | cons begins _ =>
          have empty := (List.append_eq_nil_iff.mp begins.1.symm).1
          exact False.elim (text_ne_nil _ empty)
  | cons base bases ih =>
      generalize isText : runText power (base :: bases) = text at isCut
      cases isCut with
      | nil => cases base <;> simp [runText_cons, BaseUnit.symbol] at isText
      | cons begins tailCut =>
          subst isText
          rcases reads_of_begins isRun meterAlone begins with ⟨reads, rfl⟩
          exact .cons reads
            (ih isRun.tail (meterAlone_of_notMem isRun.meter_notMem_tail) tailCut)

theorem isCut_runText (isRun : IsRun power bases)
    (bounded : ∀ base ∈ bases, power base < 2 ^ 31) :
    IsCut builtin (runText power bases) (bases.map (baseWritten power)) := by
  induction bases with
  | nil => exact .nil
  | cons base bases ih =>
      have first := begins_baseWritten isRun (bounded base (by simp))
      exact .cons first
        (ih isRun.tail fun other member => bounded other (List.mem_cons_of_mem base member))

theorem eq_or_precedes_of_reads {cut : List (WrittenTerm builtin)}
    (reads : List.Forall₂ (Reads power) bases cut) :
    cut = bases.map (baseWritten power) ∨
      List.Lex WrittenTerm.Precedes (bases.map (baseWritten power)) cut := by
  induction reads with
  | nil => exact .inl rfl
  | cons first _ ih =>
      rcases first.preferred with rfl | precedes
      · rcases ih with rfl | later
        · exact .inl rfl
        · exact .inr (.cons later)
      · exact .inr (.rel precedes)

/-- The terms that were written are the best cut. -/
theorem isBestCut_runText (isRun : IsRun power bases) (meterAlone : MeterAlone power bases)
    (bounded : ∀ base ∈ bases, power base < 2 ^ 31) :
    IsBestCut builtin (runText power bases) (bases.map (baseWritten power)) := by
  refine ⟨isCut_runText isRun bounded, ?_, ?_⟩
  · intro other otherCut
    have sameLength := (reads_of_isCut isRun meterAlone otherCut).length_eq
    exact Nat.le_of_eq (by rw [List.length_map, sameLength])
  · intro other otherCut _
    exact eq_or_precedes_of_reads (reads_of_isCut isRun meterAlone otherCut)

theorem bounded_of_reads {cut : List (WrittenTerm builtin)}
    (reads : List.Forall₂ (Reads power) bases cut) : ∀ base ∈ bases, power base < 2 ^ 31 := by
  induction reads with
  | nil => simp
  | cons first _ ih =>
      rintro base (_ | ⟨_, member⟩)
      · exact first.bounded
      · exact ih base member

theorem meter_of_reads {cut : List (WrittenTerm builtin)} (noMeter : .meter ∉ bases)
    (reads : List.Forall₂ (Reads power) bases cut) :
    ∀ written ∈ cut, written.unit.unit.dimension.meter = 0 := by
  induction reads with
  | nil => simp
  | @cons base _ _ _ first _ ih =>
      rintro written (_ | ⟨_, member⟩)
      · exact first.meter fun isMeter => noMeter (by simp [isMeter])
      · exact ih (fun inTail => noMeter (List.mem_cons_of_mem base inTail)) written member

/-- Where a single meter is written before other units, either it is read as the prefix milli of
the next unit or it is read as a meter. -/
theorem rest_of_begins_meter (isRun : IsRun power (.meter :: base :: bases))
    (single : power .meter = 1)
    (begins : written.Begins (runText power (.meter :: base :: bases)) rest) :
    rest = runText power (base :: bases) ∨
      rest = runText power bases ∧ written.unit.unit.dimension.meter = 0 := by
  have notMeter : base ≠ .meter := fun isMeter => isRun.meter_notMem_tail (by simp [isMeter])
  rw [runText_cons] at begins
  rcases rows_of_begins isRun.follows begins with
    ⟨_, _, same⟩ | ⟨isCandela, _⟩ | ⟨_, _, same⟩
  · have positive := isRun.positive .meter (by simp)
    exact .inl (eq_powerText_of_writtenExponent begins.2 same positive isRun.endsPower).2.2.2
  · cases isCandela
  · right
    have noPower : powerText (power .meter) = [] := by simp [powerText, single]
    rw [noPower, List.nil_append, runText_cons] at same
    have isRow := eq_baseRow_of_fits base written.unitRow
      (fits_of_isPrefix ⟨_, same⟩ isRun.tail.follows)
    rw [isRow, abbreviation_baseRow, List.append_cancel_left_eq] at same
    have positive := isRun.tail.positive base (by simp)
    refine ⟨(eq_powerText_of_writtenExponent begins.2 same positive
      isRun.tail.endsPower).2.2.2, ?_⟩
    rw [unit_eq, isRow]
    exact meter_baseRow notMeter

/-- In the best cut of a run with a single meter before other units there is no meter. -/
theorem meter_of_isBestCut {cut : List (WrittenTerm builtin)}
    (isRun : IsRun power (.meter :: base :: bases)) (single : power .meter = 1)
    (best : IsBestCut builtin (runText power (.meter :: base :: bases)) cut) :
    ∀ written ∈ cut, written.unit.unit.dimension.meter = 0 := by
  have noMeter := isRun.meter_notMem_tail
  have noMeterLater : .meter ∉ bases := fun member => noMeter (List.mem_cons_of_mem base member)
  have isCut := best.isCut
  generalize isText : runText power (.meter :: base :: bases) = text at isCut
  cases isCut with
  | nil => simp [runText_cons, BaseUnit.symbol] at isText
  | @cons _ _ first tail begins tailCut =>
      subst isText
      rcases rest_of_begins_meter isRun single begins with rfl | ⟨rfl, isZero⟩
      · exfalso
        have reads := reads_of_isCut isRun.tail (meterAlone_of_notMem noMeter) tailCut
        have bounded := bounded_of_reads reads
        have shorter : IsCut builtin (runText power (.meter :: base :: bases))
            (milliWritten power base :: bases.map (baseWritten power)) :=
          .cons (begins_milliWritten isRun single (bounded base (by simp)))
            (isCut_runText isRun.tail.tail
              fun other member => bounded other (List.mem_cons_of_mem base member))
        have fewest := best.fewest _ shorter
        have sameLength := reads.length_eq
        simp only [List.length_cons, List.length_map] at fewest sameLength
        omega
      · have reads := reads_of_isCut isRun.tail.tail (meterAlone_of_notMem noMeterLater) tailCut
        rintro written (_ | ⟨_, member⟩)
        · exact isZero
        · exact meter_of_reads noMeterLater reads written member

end Metrology.BaseText

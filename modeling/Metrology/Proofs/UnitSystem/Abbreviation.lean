import Metrology.Proofs.Binary64.Power
import Metrology.Proofs.UnitSystem.Literal
import Metrology.Proofs.UnitSystem.Scale

/-!
# Abbreviations as literals

An abbreviation that is written alone is read as the unit it was defined for, whatever other terms
it could be cut into. One term is the fewest there can be, the whole abbreviation is the longest one
that a single term can have, and among the units with that abbreviation the first one is meant, as
it is where the abbreviation is looked up. Neither the missing prefix nor the missing exponent
changes the scale.
-/

namespace Metrology

open Binary64

namespace Segmentation

variable {system : UnitSystem} {row : Fin system.units.length} {written : WrittenTerm system}

/-- The term that is a unit alone, without prefix and exponent. -/
def bare (row : Fin system.units.length) : WrittenTerm system :=
  ⟨none, row, [], 1⟩

/-- Part of a text takes fewer bytes than the whole, unless nothing is before and after it. -/
theorem size_lt_or_nil {whole part : String} {before after : List Char}
    (isWhole : whole.toList = before ++ part.toList ++ after) :
    part.utf8ByteSize < whole.utf8ByteSize ∨ before = [] ∧ after = [] := by
  have isAppend : whole = String.ofList before ++ part ++ String.ofList after := by
    rw [← String.toList_inj]
    simpa using isWhole
  have sizes : whole.utf8ByteSize = (String.ofList before).utf8ByteSize + part.utf8ByteSize +
      (String.ofList after).utf8ByteSize := by
    rw [isAppend, String.utf8ByteSize_append, String.utf8ByteSize_append]
  by_cases noBefore : (String.ofList before).utf8ByteSize = 0
  · by_cases noAfter : (String.ofList after).utf8ByteSize = 0
    · right
      simpa using And.intro noBefore noAfter
    · left
      omega
  · left
    omega

theorem begins_bare (row : Fin system.units.length) :
    (bare row).Begins (bare row).unit.abbreviation.toList [] :=
  ⟨by simp [bare, WrittenTerm.text, WrittenTerm.symbols, WrittenTerm.metricPrefix],
    .absent (by simp)⟩

/-- A term that is written as a whole abbreviation has a shorter one, or it is the unit alone. -/
theorem eq_bare_or_precedes
    (isFirst : ∀ other < row, (bare other).unit.abbreviation ≠ (bare row).unit.abbreviation)
    (begins : written.Begins (bare row).unit.abbreviation.toList []) :
    written = bare row ∨ (bare row).Precedes written := by
  rcases written with ⟨prefixRow, unitRow, exponentText, exponent⟩
  rcases begins with ⟨isText, isExponent⟩
  rw [List.append_nil] at isText
  rcases size_lt_or_nil isText with shorter | ⟨noPrefix, noExponent⟩
  · exact .inr (.inl shorter)
  cases prefixRow with
  | some row => cases noPrefix
  | none =>
      cases noExponent
      cases isExponent with
      | absent _ =>
          have sameAbbreviation :
              (bare row).unit.abbreviation = (bare unitRow).unit.abbreviation := by
            rw [← String.toList_inj]
            simp only [WrittenTerm.text, WrittenTerm.symbols, WrittenTerm.metricPrefix,
              Option.map_none, Option.toList_none, List.nil_append, List.append_nil] at isText
            exact isText
          rcases lt_trichotomy unitRow row with earlier | rfl | later
          · exact absurd sameAbbreviation.symm (isFirst unitRow earlier)
          · exact .inl rfl
          · exact .inr (.inr ⟨congrArg String.utf8ByteSize sameAbbreviation, .inr ⟨rfl, later⟩⟩)

theorem begins_of_isCut {run : List Char} (isCut : IsCut system run [written]) :
    written.Begins run [] := by
  cases isCut with
  | cons begins rest =>
      cases rest
      exact begins

/-- The best cut of an abbreviation is its first unit alone. -/
theorem isBestCut_bare (nonempty : (bare row).unit.abbreviation ≠ "")
    (isFirst : ∀ other < row, (bare other).unit.abbreviation ≠ (bare row).unit.abbreviation) :
    IsBestCut system (bare row).unit.abbreviation.toList [bare row] where
  isCut := .cons (begins_bare row) .nil
  fewest := by
    intro other isCut
    refine List.length_pos_iff.mpr fun noTerms => ?_
    have isText := isCut.flatMap_text
    rw [noTerms] at isText
    exact nonempty (by simpa using isText.symm)
  first := by
    intro other isCut sameLength
    rcases List.length_eq_one_iff.mp sameLength with ⟨written, rfl⟩
    rcases eq_bare_or_precedes isFirst (begins_of_isCut isCut) with rfl | precedes
    · exact .inl rfl
    · exact .inr (.rel precedes)

end Segmentation

namespace UnitOfMeasure

theorem one_mul? (unit : UnitOfMeasure) : UnitOfMeasure.one.mul? unit = some unit := by
  have isDimension : Dimension.dimensionless.mul? unit.dimension = some unit.dimension := by
    rw [Dimension.mul?_eq_some_iff]
    intro base
    cases base <;> exact (Int.zero_add _).symm
  unfold mul?
  change (Dimension.dimensionless.mul? unit.dimension).map _ = _
  rw [isDimension, Option.map_some]
  change some (UnitOfMeasure.mk unit.dimension (1 * unit.scale)) = some unit
  rw [float_one_mul]

theorem pow?_one (unit : UnitOfMeasure) : unit.pow? 1 = some unit := by
  have isDimension : unit.dimension.pow? 1 = some unit.dimension := by
    rw [Dimension.pow?_eq_some_iff]
    exact fun base => (Int.mul_one _).symm
  rw [pow?, isDimension, Option.map_some, Int32.toInt_one, Scalar.power_one_right]

end UnitOfMeasure

namespace UnitSystem

open Segmentation

variable {system : UnitSystem} {row : Fin system.units.length}

/-- A unit alone stands for itself, with the scale that it was defined with. -/
theorem multiplyTerms_bare (row : Fin system.units.length) :
    multiplyTerms 1 .one [(bare row).term] = .ok (bare row).unit.unit := by
  have isFactor : (bare row).term.unitToThe? 1 = some (bare row).unit.unit := by
    change UnitOfMeasure.pow? ⟨_, (bare row).unit.unit.scale * Scalar.power 10 0⟩ 1 = _
    rw [Scalar.power_zero_right, float_mul_one, UnitOfMeasure.pow?_one]
    rfl
  exact multiplyTerms_cons_eq_ok.mpr ⟨_, isFactor, _, UnitOfMeasure.one_mul? _, rfl⟩

theorem parse_bare
    (isFirst : ∀ other < row, (bare other).unit.abbreviation ≠ (bare row).unit.abbreviation)
    (nonempty : (bare row).unit.abbreviation ≠ "")
    (plain : ∀ character ∈ (bare row).unit.abbreviation.toList,
      Text.isBlank character = false ∧ character ≠ '/')
    (notOne : (bare row).unit.abbreviation ≠ "1") :
    system.parse (bare row).unit.abbreviation = .ok (bare row).unit.unit := by
  have isCompact : compacted (bare row).unit.abbreviation = (bare row).unit.abbreviation.toList :=
    List.filter_eq_self.mpr fun character member => by simp [(plain character member).1]
  have isSplit :
      groups (bare row).unit.abbreviation = [(bare row).unit.abbreviation.toList] := by
    rw [groups, isCompact]
    exact List.splitOn_eq_singleton fun member => (plain '/' member).2 rfl
  have someCharacters : (bare row).unit.abbreviation.toList ≠ [] := by simpa using nonempty
  have standsFor : StandsFor system (bare row).unit.abbreviation.toList [bare row] := by
    refine .run someCharacters (fun isOne => notOne ?_) (isBestCut_bare nonempty isFirst)
    rw [← String.toList_inj, isOne]
    rfl
  rw [parse_of_singleton isSplit someCharacters, multiplyRun_of_standsFor standsFor]
  exact multiplyTerms_bare row

/-- What an abbreviation is looked up as is the first unit with that abbreviation. -/
theorem exists_first_row {definition : UnitDefinition} (member : definition ∈ system.units) :
    ∃ row : Fin system.units.length,
      system.units[row].abbreviation = definition.abbreviation ∧
      (∀ other < row, system.units[other].abbreviation ≠ definition.abbreviation) ∧
      system.get? definition.abbreviation = some system.units[row] := by
  simp only [get?_eq_find?]
  obtain ⟨first, isFound⟩ : ∃ first,
      system.units.find? (·.abbreviation == definition.abbreviation) = some first := by
    rw [← Option.isSome_iff_exists]
    exact List.find?_isSome.mpr ⟨definition, member, beq_self_eq_true _⟩
  rcases List.find?_eq_some_iff_getElem.mp isFound with ⟨isSame, index, bound, rfl, earlier⟩
  refine ⟨⟨index, bound⟩, eq_of_beq isSame, fun other before same => ?_, isFound⟩
  have different := earlier other before
  rw [Bool.not_eq_true', beq_eq_false_iff_ne] at different
  exact different same

/-- Every abbreviation names its own unit. If it has no blank and no slash and is neither empty nor
`1`, it is read as a literal with just the exponents and the scale of the unit that is found by it,
the first one defined with it. No other way to read it matters: as a prefix and a unit, as a unit
and an exponent, or as several units. -/
theorem parse_abbreviation {system : UnitSystem} {definition : UnitDefinition}
    (member : definition ∈ system.units) (nonempty : definition.abbreviation ≠ "")
    (plain : ∀ character ∈ definition.abbreviation.toList,
      Text.isBlank character = false ∧ character ≠ '/')
    (notOne : definition.abbreviation ≠ "1") :
    ∃ row : Fin system.units.length,
      system.units[row].abbreviation = definition.abbreviation ∧
      (∀ other < row, system.units[other].abbreviation ≠ definition.abbreviation) ∧
      system.get? definition.abbreviation = some system.units[row] ∧
      system.parse definition.abbreviation = .ok system.units[row].unit := by
  rcases exists_first_row member with ⟨row, sameAbbreviation, isFirst, isFound⟩
  refine ⟨row, sameAbbreviation, isFirst, isFound, ?_⟩
  rw [← sameAbbreviation] at nonempty plain notOne isFirst ⊢
  exact parse_bare isFirst nonempty plain notOne

/-- A unit system in which `km2` is the abbreviation of two units, but also a prefix with a unit, a
prefix with a unit and an exponent, a unit with an exponent, and two units in a row. -/
def ambiguous : UnitSystem where
  units := [("k", 2), ("m", 3), ("m2", 5), ("km", 7), ("km2", 11), ("km2", 13)].map
    fun (abbreviation, scale) => ⟨abbreviation, abbreviation, "", ⟨.ofBase .meter, scale⟩, false⟩
  prefixes := [⟨'k', "kilo", 3⟩]

theorem parse_abbreviation_ambiguous :
    ambiguous.parse "km2" = .ok ⟨.ofBase .meter, 11⟩ := by
  have member : ambiguous.units[5] ∈ ambiguous.units := List.getElem_mem _
  have plain : ∀ character ∈ "km2".toList, Text.isBlank character = false ∧ character ≠ '/' := by
    have isPlain : ("km2".toList.all fun character =>
        !Text.isBlank character && character != '/') = true := by decide +kernel
    intro character member
    simpa using List.all_eq_true.mp isPlain character member
  rcases parse_abbreviation member (by decide) plain (by decide) with
    ⟨row, isSame, isFirst, _, reads⟩
  have isFifth : ∀ row : Fin ambiguous.units.length, ambiguous.units[row].abbreviation = "km2" →
      (∀ other < row, ambiguous.units[other].abbreviation ≠ "km2") → row = ⟨4, by decide⟩ := by
    decide +kernel
  rw [isFifth row isSame isFirst] at reads
  exact reads

end UnitSystem

end Metrology

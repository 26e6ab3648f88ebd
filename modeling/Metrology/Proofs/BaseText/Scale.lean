import Metrology.Proofs.BaseText.Reread
import Metrology.Proofs.Binary64.Arithmetic
import Metrology.Proofs.UnitSystem.Scale

/-!
# What is read again is in base units

A dimension that comes back from base-unit symbols comes back with scale one, since the terms that
it is read as are the base units themselves, without prefixes. So the legible dimensions are just
those that are read again as the base unit of the dimension.
-/

namespace Metrology

open Binary64

theorem Scalar.squaring_one (exponent : Nat) : squaring exponent (1 : Float) 1 = 1 := by
  induction exponent using Nat.strongRecOn with
  | ind exponent ih =>
      have noFactor : (1 : Float) * 1 = 1 := float_mul_one 1
      unfold squaring
      dsimp only
      change (if _ : exponent / 2 = 0 then (if exponent % 2 = 1 then (1 : Float) * 1 else 1)
        else squaring (exponent / 2) (if exponent % 2 = 1 then (1 : Float) * 1 else 1)
          ((1 : Float) * 1)) = 1
      rw [noFactor, ite_self]
      split
      · rfl
      · exact ih (exponent / 2) (by omega)

theorem Scalar.power_one (exponent : Int) : power (1 : Float) exponent = 1 := by
  change (if exponent < 0 then (1 : Float) / squaring exponent.natAbs 1 1
    else squaring exponent.natAbs 1 1) = 1
  rw [squaring_one]
  split
  · decide +kernel
  · rfl

namespace BaseText

open Segmentation UnitSystem

variable {power : BaseUnit → Nat} {bases : List BaseUnit} {sign : Int32} {literal : String}
  {unit result : UnitOfMeasure}

theorem scale_baseRow (base : BaseUnit) : (unitAt (baseRow base)).unit.scale = 1 := by
  cases base <;> rfl

theorem scaleOf_baseWritten (base : BaseUnit) :
    (baseWritten power base).term.scaleOf sign = 1 := by
  change Scalar.power ((unitAt (baseRow base)).unit.scale * Scalar.power 10 0) _ = 1
  have noPrefix : Scalar.power (10 : Float) 0 = 1 := by decide +kernel
  rw [scale_baseRow, noPrefix, float_mul_one, Scalar.power_one]

theorem scaleProduct_baseWritten (scale : Float) (bases : List BaseUnit) :
    scaleProduct sign scale (bases.map fun base => (baseWritten power base).term) = scale := by
  induction bases with
  | nil => rfl
  | cons base bases ih =>
      rw [List.map_cons, scaleProduct, List.foldl_cons, scaleOf_baseWritten, float_mul_one]
      exact ih

/-- A run that is written clearly leaves the scale as it was. -/
theorem scale_of_readRun (isRun : IsRun power bases) (meterAlone : MeterAlone power bases)
    (isResult : readRun literal sign unit (runText power bases) = .ok result) :
    result.scale = unit.scale := by
  rw [readRun] at isResult
  split at isResult
  · cases isResult
  · rename_i terms found
    rcases exists_isBestCut_of_segment? found with ⟨cut, best, rfl⟩
    have bounded := bounded_of_reads (reads_of_isCut isRun meterAlone best.isCut)
    rw [(isBestCut_runText isRun meterAlone bounded).unique best, List.map_map] at isResult
    rw [scale_of_multiplyTerms isResult]
    exact scaleProduct_baseWritten unit.scale bases

theorem parse_expression_of_comesBack {dimension : Dimension} (comesBack : ComesBack dimension) :
    builtin.parse dimension.expression = .ok { dimension := dimension } := by
  rcases legible_iff.mp (legible_of_comesBack comesBack) with ⟨_, numerator, denominator⟩
  rcases exists_readRun_of_comesBack comesBack with ⟨above, result, same, isAbove, isResult⟩
  have scaleAbove := scale_of_readRun (isRun_positiveBases _) (meterAlone_iff.mpr numerator) isAbove
  have scaleBelow :=
    scale_of_readRun (isRun_positiveBases _) (meterAlone_iff.mpr denominator) isResult
  rw [parse_expression, numeratorText_eq, denominatorText_eq, isAbove]
  change readRun _ (-1) above _ = _
  rw [isResult]
  rcases result with ⟨readDimension, scale⟩
  cases same
  cases scaleBelow.trans scaleAbove
  rfl

/-- The dimensions that come back are the legible ones, whatever their exponents, and they come back
in base units, with scale one. -/
theorem comesBack_exactly (dimension : Dimension) :
    (ComesBack dimension ↔ Legible dimension) ∧
      (ComesBack dimension ↔
        builtin.parse dimension.expression = .ok { dimension := dimension, scale := 1 }) :=
  ⟨⟨legible_of_comesBack, comesBack_of_legible⟩,
    parse_expression_of_comesBack, fun reads => ⟨_, reads, rfl⟩⟩

end BaseText

end Metrology

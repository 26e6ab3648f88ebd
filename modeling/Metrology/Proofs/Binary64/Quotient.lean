import Metrology.Proofs.Binary64.Arithmetic

/-!
# Quotients within the range

When a finite number can be divided without leaving the range of finite numbers: the exact quotient
has to be below the bound of overflow. A divisor of one or more always fits. Division by an infinity
gives zero, and division by zero gives no finite number, not even of zero.
-/

namespace Metrology.Binary64

open Float.Model
open Float.Model.UnpackedFloat (Sign)

variable {number divisor : Float} {sign : Sign}

/-- The exact magnitude of a finite number. -/
def exactMagnitude (number : Float) : ℚ :=
  match unpacked number with
  | .finite _ significand exponent _ => significand * 2 ^ exponent
  | _ => 0

/-- Whether a finite number can be divided by another number without leaving the range. -/
inductive QuotientFits (number divisor : Float) : Prop where
  | infinite (isInfinite : divisor.isInf = true) : QuotientFits number divisor
  | within (isFinite : divisor.isFinite = true) (nonzero : exactMagnitude divisor ≠ 0)
      (below : exactMagnitude number / exactMagnitude divisor < overflowBound) :
      QuotientFits number divisor

theorem overflowBound_pos : 0 < overflowBound := by
  have topPos : 0 < halfTopPlace := two_zpow_pos 970
  rw [overflowBound]
  linarith

theorem exactMagnitude_of_finite {significand : ℕ} {exponent : ℤ} {pos : 0 < significand}
    (isParts : unpacked number = .finite sign significand exponent pos) :
    exactMagnitude number = significand * 2 ^ exponent := by
  rw [exactMagnitude, isParts]

/-- For a finite divisor that is not zero, it is the exact quotient that has to be within the
range. -/
theorem quotientFits_iff (isFinite : divisor.isFinite = true)
    (nonzero : exactMagnitude divisor ≠ 0) :
    QuotientFits number divisor ↔
      exactMagnitude number / exactMagnitude divisor < overflowBound := by
  constructor
  · rintro (isInfinite | ⟨_, _, below⟩)
    · change (unpacked divisor).isInf = true at isInfinite
      rcases zero_or_finite isFinite with ⟨_, isParts⟩ | ⟨_, _, _, _, isParts⟩ <;>
        rw [isParts] at isInfinite <;> cases isInfinite
    · exact below
  · exact .within isFinite nonzero

/-- No finite number can be divided by zero or by what is no number. -/
theorem not_quotientFits (notInfinite : (unpacked divisor).isInf = false)
    (isZero : exactMagnitude divisor = 0) : ¬QuotientFits number divisor := by
  rintro (isInfinite | ⟨_, nonzero, _⟩)
  · change (unpacked divisor).isInf = true at isInfinite
    rw [notInfinite] at isInfinite
    cases isInfinite
  · exact nonzero isZero

theorem isFinite_div_of_parts {parts : UnpackedFloat} (encodable : Encodable parts)
    (isParts : UnpackedFloat.div .binary64 (unpacked number) (unpacked divisor) = parts) :
    (number / divisor).isFinite = parts.isFinite := by
  rw [← isFinite_packed encodable, ← isParts]
  rfl

/-- A quotient of a finite number is finite just if the exact quotient is below the bound, or zero
because the divisor is infinite. -/
theorem isFinite_div_iff (isFinite : number.isFinite = true) (divisor : Float) :
    (number / divisor).isFinite = true ↔ QuotientFits number divisor := by
  have isZeroOrFinite := zero_or_finite isFinite
  cases isDivisor : unpacked divisor with
  | infinity divisorSign =>
      have isInfinite : divisor.isInf = true := by
        change (unpacked divisor).isInf = true
        rw [isDivisor]
        rfl
      refine iff_of_true ?_ (.infinite isInfinite)
      rcases isZeroOrFinite with ⟨sign, isNumber⟩ | ⟨sign, significand, exponent, pos, isNumber⟩ <;>
        exact isFinite_div_of_parts (.zero (sign / divisorSign)) (by rw [isNumber, isDivisor]; rfl)
  | notANumber =>
      have isUndefined : (number / divisor).isFinite = false := by
        rcases isZeroOrFinite with
          ⟨sign, isNumber⟩ | ⟨sign, significand, exponent, pos, isNumber⟩ <;>
          exact isFinite_div_of_parts .notANumber (by rw [isNumber, isDivisor]; rfl)
      rw [isUndefined]
      exact iff_of_false Bool.false_ne_true
        (not_quotientFits (by rw [isDivisor]; rfl) (by rw [exactMagnitude, isDivisor]))
  | zero divisorSign =>
      have isUndefined : (number / divisor).isFinite = false := by
        rcases isZeroOrFinite with ⟨sign, isNumber⟩ | ⟨sign, significand, exponent, pos, isNumber⟩
        · exact isFinite_div_of_parts .notANumber (by rw [isNumber, isDivisor]; rfl)
        · exact isFinite_div_of_parts (.infinity (sign / divisorSign))
            (by rw [isNumber, isDivisor]; rfl)
      rw [isUndefined]
      exact iff_of_false Bool.false_ne_true
        (not_quotientFits (by rw [isDivisor]; rfl) (by rw [exactMagnitude, isDivisor]))
  | finite divisorSign divisorSignificand divisorExponent divisorPos =>
      have divisorFinite : divisor.isFinite = true := by
        change (unpacked divisor).isFinite = true
        rw [isDivisor]
        rfl
      have isMagnitude := exactMagnitude_of_finite isDivisor
      have magnitudePos := value_pos divisorPos divisorExponent
      rw [quotientFits_iff divisorFinite (by rw [isMagnitude]; exact magnitudePos.ne'), isMagnitude]
      rcases isZeroOrFinite with ⟨sign, isNumber⟩ | ⟨sign, significand, exponent, pos, isNumber⟩
      · have isZero : exactMagnitude number = 0 := by rw [exactMagnitude, isNumber]
        rw [isZero, zero_div]
        refine iff_of_true ?_ overflowBound_pos
        exact isFinite_div_of_parts (.zero (sign / divisorSign)) (by rw [isNumber, isDivisor]; rfl)
      · rw [exactMagnitude_of_finite isNumber]
        exact (roundsTo_div isNumber isDivisor).isFinite_iff
          (div_pos (value_pos pos exponent) magnitudePos)

theorem exactMagnitude_lt (isFinite : number.isFinite = true) :
    exactMagnitude number < overflowBound := by
  unfold exactMagnitude
  split
  · rename_i sign significand exponent pos isParts
    exact ((roundsTo_self isParts).isFinite_iff (value_pos pos exponent)).mp isFinite
  · exact overflowBound_pos

/-- Division by a number from one on never leaves the range. -/
theorem quotientFits_of_one_le (isFinite : number.isFinite = true)
    (divisorFinite : divisor.isFinite = true) (atLeastOne : 1 ≤ exactMagnitude divisor) :
    QuotientFits number divisor := by
  have positive : 0 < exactMagnitude divisor := by linarith
  refine .within divisorFinite positive.ne' ?_
  rw [div_lt_iff₀ positive]
  have below := exactMagnitude_lt isFinite
  have := mul_le_mul_of_nonneg_left atLeastOne overflowBound_pos.le
  linarith

end Metrology.Binary64

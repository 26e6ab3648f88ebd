import Mathlib.Algebra.Order.Floor.Semifield
import Mathlib.Tactic.Positivity
import Metrology.Proofs.Binary64.Nearest

/-!
# Products and quotients of binary64 numbers

Multiplication and division find the exact result as an integer at some power of two, with a round
bit and a sticky bit that tell what is beyond the integer, shift it to the quantum of the result and
round it there. So what they give is the rounding of the exact result, provided that the integer had
enough digits, which the choice of the power of two sees to.
-/

namespace Metrology.Binary64

open Float.Model
open Float.Model.UnpackedFloat hiding pack unpack

/-- Whether an integer with a round bit and a sticky bit stands for an exact number: the bits say on
which side of the half its fractional part is. -/
inductive Describes (extended : ExtendedMantissa) (exact : ℚ) : Prop where
  | intro (fraction : ℚ) (split : exact = extended.mantissa + fraction) (nonneg : 0 ≤ fraction)
      (below : fraction < 1) (roundBit : extended.roundBit = true ↔ 1 / 2 ≤ fraction)
      (stickyBit : extended.stickyBit = true ↔ fraction ≠ 0 ∧ fraction ≠ 1 / 2)

variable {extended : ExtendedMantissa} {exact : ℚ} {sign : Sign} {mantissa : ℕ} {exponent : ℤ}
  {accuracy : Accuracy}

namespace Describes

theorem of_exact (mantissa : ℕ) : Describes (.ofMantissaAndAccuracy mantissa .exact) mantissa := by
  refine .intro 0 (by simp [ExtendedMantissa.ofMantissaAndAccuracy]) (le_refl _) (by norm_num)
    ⟨?_, ?_⟩ ⟨?_, ?_⟩
  · intro isSet
    cases isSet
  · norm_num
  · intro isSet
    cases isSet
  · norm_num

/-- One digit less describes half of the number. -/
theorem shiftRightOne (describes : Describes extended exact) :
    Describes extended.shiftRightOne (exact / 2) := by
  rcases extended with ⟨mantissa, roundBit, stickyBit⟩
  rcases describes with ⟨fraction, split, nonneg, below, isRound, isSticky⟩
  have halves : (mantissa : ℚ) = 2 * (mantissa / 2 : ℕ) + (mantissa % 2 : ℕ) := by
    exact_mod_cast (Nat.div_add_mod mantissa 2).symm
  have residue : (roundBit || stickyBit) = true ↔ fraction ≠ 0 := by
    rw [Bool.or_eq_true, isRound, isSticky]
    constructor
    · rintro (above | ⟨notZero, _⟩)
      · intro isZero
        rw [isZero] at above
        norm_num at above
      · exact notZero
    · intro notZero
      by_cases above : 1 / 2 ≤ fraction
      · exact .inl above
      · exact .inr ⟨notZero, fun isHalf => above isHalf.ge⟩
  rcases Nat.mod_two_eq_zero_or_one mantissa with isEven | isOdd
  · rw [isEven] at halves
    refine .intro (fraction / 2) ?_ (by linarith) (by linarith) ?_ ?_
    · rw [split, halves]
      simp [ExtendedMantissa.shiftRightOne]
      ring
    · simp [ExtendedMantissa.shiftRightOne, isEven]
      linarith
    · change (roundBit || stickyBit) = true ↔ _
      rw [residue]
      constructor
      · intro notZero
        exact ⟨by simpa using notZero, by linarith⟩
      · rintro ⟨notZero, _⟩
        simpa using notZero
  · rw [isOdd] at halves
    refine .intro ((1 + fraction) / 2) ?_ (by linarith) (by linarith) ?_ ?_
    · rw [split, halves]
      simp [ExtendedMantissa.shiftRightOne]
      ring
    · simp [ExtendedMantissa.shiftRightOne, isOdd]
      linarith
    · change (roundBit || stickyBit) = true ↔ _
      rw [residue]
      constructor
      · intro notZero
        refine ⟨by linarith, fun isHalf => notZero (by linarith)⟩
      · rintro ⟨_, notHalf⟩ isZero
        exact notHalf (by rw [isZero, add_zero])

theorem shiftRight (describes : Describes extended exact) (digits : ℕ) :
    Describes (extended >>> digits) (exact / 2 ^ digits) := by
  induction digits with
  | zero =>
      rw [pow_zero, div_one]
      exact describes
  | succ digits ih =>
      have halved := ih.shiftRightOne
      rw [div_div, ← pow_succ] at halved
      exact halved

/-- The integer that the bits tell to take is the nearest one. -/
theorem isNearest (describes : Describes extended exact) :
    IsNearest exact extended.roundedMantissa := by
  rcases extended with ⟨mantissa, roundBit, stickyBit⟩
  rcases describes with ⟨fraction, split, nonneg, below, isRound, isSticky⟩
  dsimp only at split isRound isSticky
  cases roundBit with
  | false =>
      have belowHalf : fraction < 1 / 2 := by
        by_contra above
        exact absurd (isRound.mpr (not_lt.mp above)) Bool.false_ne_true
      have isMantissa : (⟨mantissa, false, stickyBit⟩ : ExtendedMantissa).roundedMantissa =
          mantissa := by
        cases stickyBit <;> rfl
      left
      rw [isMantissa, split, add_sub_cancel_left, abs_of_nonneg nonneg]
      exact belowHalf
  | true =>
      have atLeastHalf : 1 / 2 ≤ fraction := isRound.mp rfl
      cases stickyBit with
      | false =>
          have isHalf : fraction = 1 / 2 := by
            by_contra notHalf
            have notZero : fraction ≠ 0 := by linarith
            exact absurd (isSticky.mpr ⟨notZero, notHalf⟩) Bool.false_ne_true
          right
          change |exact - (mantissa + mantissa % 2 : ℕ)| = 1 / 2 ∧ (mantissa + mantissa % 2) % 2 = 0
          rw [split, isHalf]
          rcases Nat.mod_two_eq_zero_or_one mantissa with isEven | isOdd
          · rw [isEven, Nat.add_zero, add_sub_cancel_left]
            exact ⟨by norm_num, isEven⟩
          · rw [isOdd, Nat.cast_add, add_sub_add_left_eq_sub]
            exact ⟨by norm_num, by omega⟩
      | true =>
          have ⟨_, notHalf⟩ := isSticky.mp rfl
          have aboveHalf : 1 / 2 < fraction := lt_of_le_of_ne atLeastHalf (Ne.symm notHalf)
          left
          change |exact - (mantissa + 1 : ℕ)| < 1 / 2
          rw [split, Nat.cast_add, add_sub_add_left_eq_sub, abs_lt]
          push_cast
          constructor <;> linarith

theorem floor_le (describes : Describes extended exact) : extended.mantissa ≤ exact := by
  rcases describes with ⟨fraction, split, nonneg, _, _, _⟩
  linarith

theorem lt_floor_add_one (describes : Describes extended exact) :
    exact < extended.mantissa + 1 := by
  rcases describes with ⟨fraction, split, _, below, _, _⟩
  linarith

end Describes

theorem le_value (pos : 0 < mantissa) (exponent : ℤ) :
    (2 : ℚ) ^ ((mantissa.log2 : ℤ) + exponent) ≤ mantissa * 2 ^ exponent := by
  have atLeast : (2 ^ mantissa.log2 : ℚ) ≤ mantissa := by
    exact_mod_cast Nat.log2_self_le pos.ne'
  rw [zpow_add₀ (by norm_num), zpow_natCast]
  exact mul_le_mul_of_nonneg_right atLeast (two_zpow_pos exponent).le

theorem succ_value_le (mantissa : ℕ) (exponent : ℤ) :
    (mantissa + 1 : ℚ) * 2 ^ exponent ≤ 2 ^ ((mantissa.log2 : ℤ) + 1 + exponent) := by
  have atMost : (mantissa + 1 : ℚ) ≤ 2 ^ (mantissa.log2 + 1) := by
    exact_mod_cast Nat.succ_le_of_lt Nat.lt_log2_self
  have isCast : (mantissa.log2 : ℤ) + 1 = (mantissa.log2 + 1 : ℕ) := rfl
  rw [zpow_add₀ (by norm_num), isCast, zpow_natCast]
  exact mul_le_mul_of_nonneg_right atMost (two_zpow_pos exponent).le

theorem targetExponent_eq (total : ℤ) :
    Format.binary64.targetExponent total = max (total - 53) (-1074) :=
  rfl

/-- The power of two that an integer and what is beyond it are shifted to is the quantum, if the
integer has the digits for it. -/
theorem targetExponent_eq_quantum (isPositive : 0 < exact)
    (describes : Describes extended (exact / 2 ^ exponent)) (enough : exponent ≤ quantum exact) :
    Format.binary64.targetExponent (totalExponent extended.mantissa exponent) = quantum exact := by
  have floorLe := describes.floor_le
  have lt_next := describes.lt_floor_add_one
  rw [le_div_iff₀ (two_zpow_pos exponent)] at floorLe
  rw [div_lt_iff₀ (two_zpow_pos exponent)] at lt_next
  rw [targetExponent_eq, totalExponent]
  by_cases isZero : extended.mantissa = 0
  · have exactLt : exact < 2 ^ exponent := by
      rw [isZero] at lt_next
      simpa using lt_next
    rw [lt_two_zpow_iff isPositive] at exactLt
    rw [isZero, Nat.log2_zero]
    rw [quantum] at enough ⊢
    omega
  · have exactGe := (le_value (Nat.pos_of_ne_zero isZero) exponent).trans floorLe
    have exactLt := lt_next.trans_le (succ_value_le extended.mantissa exponent)
    rw [two_zpow_le_iff isPositive] at exactGe
    rw [lt_two_zpow_iff isPositive] at exactLt
    rw [quantum]
    omega

/-- An integer within the digits of a significand stays where it is. -/
theorem shiftToTargetExponent_of_lt (small : mantissa < 2 ^ 53) (atLeast : -1074 ≤ exponent) :
    shiftToTargetExponent .binary64 mantissa exponent .exact =
      (⟨mantissa, false, false⟩, exponent) := by
  have log2Le : mantissa.log2 ≤ 52 := by
    by_cases isZero : mantissa = 0
    · rw [isZero, Nat.log2_zero]
      omega
    · have := (Nat.log2_lt isZero).mpr small
      omega
  have noShift : (Format.binary64.targetExponent (totalExponent mantissa exponent) -
      exponent).toNat = 0 := by
    rw [targetExponent_eq, totalExponent]
    omega
  rw [shiftToTargetExponent, shiftToExponent, noShift]
  simp only [Nat.cast_zero, add_zero]
  rfl

/-- An integer that rounding has made one digit too long loses a zero. -/
theorem shiftToTargetExponent_of_carry (atLeast : -1074 ≤ exponent) :
    shiftToTargetExponent .binary64 (2 ^ 53) exponent .exact =
      (⟨2 ^ 52, false, false⟩, exponent + 1) := by
  have oneShift : (Format.binary64.targetExponent (totalExponent (2 ^ 53) exponent) -
      exponent).toNat = 1 := by
    rw [targetExponent_eq, totalExponent, Nat.log2_two_pow]
    omega
  rw [shiftToTargetExponent, shiftToExponent, oneShift]
  rfl

/-- Rounding an integer with what is beyond it gives the rounding of the exact number. -/
theorem isRounding_roundWithAccuracy (isPositive : 0 < exact)
    (describes : Describes (.ofMantissaAndAccuracy mantissa accuracy) (exact / 2 ^ exponent))
    (enough : exponent ≤ quantum exact) :
    IsRounding sign exact (roundWithAccuracy .binary64 sign mantissa exponent accuracy) := by
  have isMantissa : (ExtendedMantissa.ofMantissaAndAccuracy mantissa accuracy).mantissa =
      mantissa := by
    cases accuracy with
    | exact => rfl
    | inexact order => cases order <;> rfl
  have isTarget := targetExponent_eq_quantum isPositive describes enough
  rw [isMantissa] at isTarget
  have shifted := describes.shiftRight (quantum exact - exponent).toNat
  rw [div_div, ← zpow_natCast, ← zpow_add₀ (by norm_num),
    show exponent + ((quantum exact - exponent).toNat : ℤ) = quantum exact by omega] at shifted
  have isNearest := shifted.isNearest
  have quantumGe : -1074 ≤ quantum exact := le_max_right _ _
  have atMost : (ExtendedMantissa.ofMantissaAndAccuracy mantissa accuracy >>>
      (quantum exact - exponent).toNat).roundedMantissa ≤ 2 ^ 53 := by
    have inQuanta : exact / 2 ^ quantum exact < (2 ^ 53 : ℕ) := by
      exact_mod_cast div_quantum_lt isPositive
    exact isNearest.le_of_lt inQuanta
  unfold roundWithAccuracy
  rw [shiftToTargetExponent, isTarget, shiftToExponent]
  dsimp only
  rw [show exponent + ((quantum exact - exponent).toNat : ℤ) = quantum exact by omega]
  generalize (ExtendedMantissa.ofMantissaAndAccuracy mantissa accuracy >>>
    (quantum exact - exponent).toNat).roundedMantissa = multiple at isNearest atMost ⊢
  rcases atMost.lt_or_eq with small | isCarry
  · rw [shiftToTargetExponent_of_lt small quantumGe]
    dsimp only
    by_cases isZero : multiple = 0
    · rw [dif_pos isZero]
      exact .zero (isZero ▸ isNearest)
    · rw [dif_neg isZero]
      refine .finite isNearest ⟨small, quantumGe, ?_⟩ rfl
      rcases quantumGe.eq_or_lt with isBottom | above
      · exact .inr isBottom.symm
      · have inQuanta : (2 ^ 52 : ℕ) ≤ exact / 2 ^ quantum exact := by
          exact_mod_cast le_div_quantum isPositive above
        exact .inl (isNearest.le_of_le inQuanta)
  · subst isCarry
    rw [shiftToTargetExponent_of_carry quantumGe]
    dsimp only
    rw [dif_neg (by norm_num)]
    refine .finite isNearest ⟨by norm_num, by omega, .inl (le_refl _)⟩ ?_
    rw [zpow_add₀ (by norm_num), zpow_one]
    push_cast
    ring

section Parts

variable {leftSign rightSign : Sign} {left right : ℕ} {leftExponent rightExponent : ℤ}
  {leftPos : 0 < left} {rightPos : 0 < right}

/-- A product is the rounding of the exact product, if its quantum is no finer than its parts. -/
theorem isRounding_mul
    (enough : leftExponent + rightExponent ≤
      quantum (left * 2 ^ leftExponent * (right * 2 ^ rightExponent))) :
    IsRounding (leftSign * rightSign) (left * 2 ^ leftExponent * (right * 2 ^ rightExponent))
      (mul .binary64 (.finite leftSign left leftExponent leftPos)
        (.finite rightSign right rightExponent rightPos)) := by
  have isPositive := mul_pos (value_pos leftPos leftExponent) (value_pos rightPos rightExponent)
  apply isRounding_roundWithAccuracy isPositive _ enough
  have isProduct : (left * 2 ^ leftExponent * (right * 2 ^ rightExponent) : ℚ) /
      2 ^ (leftExponent + rightExponent) = (left * right : ℕ) := by
    rw [zpow_add₀ (by norm_num),
      div_eq_iff (mul_pos (two_zpow_pos _) (two_zpow_pos _)).ne']
    push_cast
    ring
  rw [isProduct]
  exact .of_exact _

theorem describes_accuracyOfFraction {quotient numerator denominator : ℕ}
    (below : numerator < denominator) :
    Describes (.ofMantissaAndAccuracy quotient (accuracyOfFraction numerator denominator))
      (quotient + numerator / denominator) := by
  have denominatorPos : (0 : ℚ) < denominator := by
    have : 0 < denominator := by omega
    exact_mod_cast this
  by_cases isZero : numerator = 0
  · rw [isZero, accuracyOfFraction, if_pos rfl, Nat.cast_zero, zero_div, add_zero]
    exact .of_exact quotient
  · have fractionPos : (0 : ℚ) < numerator / denominator := by
      have : 0 < numerator := by omega
      exact div_pos (by exact_mod_cast this) denominatorPos
    have fractionLt : (numerator / denominator : ℚ) < 1 := by
      rw [div_lt_one denominatorPos]
      exact_mod_cast below
    have halfLe : (1 / 2 : ℚ) ≤ numerator / denominator ↔ denominator ≤ 2 * numerator := by
      rw [le_div_iff₀ denominatorPos]
      constructor
      · intro atLeast
        have : (denominator : ℚ) ≤ (2 * numerator : ℕ) := by
          push_cast
          linarith
        exact_mod_cast this
      · intro atLeast
        have : (denominator : ℚ) ≤ (2 * numerator : ℕ) := by exact_mod_cast atLeast
        push_cast at this
        linarith
    have isHalf : (numerator / denominator : ℚ) = 1 / 2 ↔ 2 * numerator = denominator := by
      rw [div_eq_iff denominatorPos.ne']
      constructor
      · intro isHalf
        have : ((2 * numerator : ℕ) : ℚ) = denominator := by
          push_cast
          linarith
        exact_mod_cast this
      · intro isHalf
        have : ((2 * numerator : ℕ) : ℚ) = denominator := by exact_mod_cast isHalf
        push_cast at this
        linarith
    rw [accuracyOfFraction, if_neg isZero]
    rcases lt_trichotomy (2 * numerator) denominator with isLess | isEqual | isMore
    · rw [Nat.compare_eq_lt.mpr isLess]
      refine .intro _ rfl fractionPos.le fractionLt ?_ ?_
      · rw [halfLe]
        simp [ExtendedMantissa.ofMantissaAndAccuracy, isLess]
      · rw [ne_eq, ne_eq, isHalf]
        simp [ExtendedMantissa.ofMantissaAndAccuracy, fractionPos.ne', isLess.ne]
    · rw [Nat.compare_eq_eq.mpr isEqual]
      refine .intro _ rfl fractionPos.le fractionLt ?_ ?_
      · rw [halfLe]
        simp [ExtendedMantissa.ofMantissaAndAccuracy, isEqual]
      · rw [ne_eq, ne_eq, isHalf]
        simp [ExtendedMantissa.ofMantissaAndAccuracy, isEqual]
    · rw [Nat.compare_eq_gt.mpr isMore]
      refine .intro _ rfl fractionPos.le fractionLt ?_ ?_
      · rw [halfLe]
        simp [ExtendedMantissa.ofMantissaAndAccuracy, isMore.le]
      · rw [ne_eq, ne_eq, isHalf]
        simp [ExtendedMantissa.ofMantissaAndAccuracy, fractionPos.ne', isMore.ne']

/-- The power of two that a quotient is first formed at is no coarser than its quantum. -/
theorem targetExponent_le_quantum (leftPos : 0 < left) (rightPos : 0 < right)
    (leftExponent rightExponent : ℤ) :
    Format.binary64.targetExponent
        (totalExponent left leftExponent - totalExponent right rightExponent) ≤
      quantum (left * 2 ^ leftExponent / (right * 2 ^ rightExponent)) := by
  have rightValuePos := value_pos rightPos rightExponent
  have isPositive := div_pos (value_pos leftPos leftExponent) rightValuePos
  have atLeast : (2 : ℚ) ^ ((left.log2 : ℤ) + leftExponent - (right.log2 + 1 + rightExponent)) ≤
      left * 2 ^ leftExponent / (right * 2 ^ rightExponent) := by
    rw [le_div_iff₀ rightValuePos]
    refine le_trans ?_ (le_value leftPos leftExponent)
    rw [zpow_sub₀ (by norm_num), div_mul_eq_mul_div, div_le_iff₀ (two_zpow_pos _)]
    have rightLe :
        (right * 2 ^ rightExponent : ℚ) ≤ 2 ^ ((right.log2 : ℤ) + 1 + rightExponent) := by
      have := succ_value_le right rightExponent
      have := two_zpow_pos rightExponent
      linarith
    exact mul_le_mul_of_nonneg_left rightLe (two_zpow_pos _).le
  rw [two_zpow_le_iff isPositive] at atLeast
  rw [targetExponent_eq, totalExponent, totalExponent, quantum]
  omega

/-- A quotient is the rounding of the exact quotient. -/
theorem isRounding_div :
    IsRounding (leftSign / rightSign) (left * 2 ^ leftExponent / (right * 2 ^ rightExponent))
      (div .binary64 (.finite leftSign left leftExponent leftPos)
        (.finite rightSign right rightExponent rightPos)) := by
  have isPositive := div_pos (value_pos leftPos leftExponent) (value_pos rightPos rightExponent)
  have enough := targetExponent_le_quantum leftPos rightPos leftExponent rightExponent
  generalize isExact : (left * 2 ^ leftExponent / (right * 2 ^ rightExponent) : ℚ) = exact
    at isPositive enough ⊢
  unfold UnpackedFloat.div divCore
  dsimp only
  generalize Format.binary64.targetExponent
    (totalExponent left leftExponent - totalExponent right rightExponent) = target at enough ⊢
  obtain ⟨shift, isShift⟩ : ∃ shift : ℕ,
      leftExponent - rightExponent - min (leftExponent - rightExponent) target = shift :=
    ⟨_, (Int.toNat_of_nonneg (by omega)).symm⟩
  rw [isShift, Int.toNat_natCast, Nat.shiftLeft_eq]
  apply isRounding_roundWithAccuracy isPositive _ (by omega)
  have isQuotient : exact / 2 ^ min (leftExponent - rightExponent) target =
      (left * 2 ^ shift / right : ℕ) + (left * 2 ^ shift % right : ℕ) / right := by
    have rightNe : (right : ℚ) ≠ 0 := by exact_mod_cast rightPos.ne'
    have isTarget : min (leftExponent - rightExponent) target =
        leftExponent - rightExponent - shift := by omega
    have division : ((left * 2 ^ shift : ℕ) : ℚ) =
        right * (left * 2 ^ shift / right : ℕ) + (left * 2 ^ shift % right : ℕ) := by
      exact_mod_cast (Nat.div_add_mod _ _).symm
    rw [← isExact, isTarget, zpow_sub₀ (by norm_num), zpow_sub₀ (by norm_num), zpow_natCast]
    field_simp
    push_cast at division
    exact division
  rw [isQuotient]
  exact describes_accuracyOfFraction (Nat.mod_lt _ rightPos)

end Parts

end Metrology.Binary64

import Metrology.Proofs.Binary64.Rounding
import Metrology.Proofs.Binary64.Sign

/-!
# Numbers as roundings

A binary64 number is the rounding of an exact magnitude if it is packed from the parts that the
magnitude is rounded to. Every positive magnitude has exactly one rounding of either sign. It is
finite just below `overflowBound`, and the products and quotients of finite numbers are roundings of
the exact ones.
-/

namespace Metrology.Binary64

open Float.Model
open Float.Model.UnpackedFloat (Sign)

/-- Whether a number is what a positive magnitude is rounded to, with a sign put to it. -/
def RoundsTo (sign : Sign) (exact : ℚ) (number : Float) : Prop :=
  ∃ parts, IsRounding sign exact parts ∧ number = packed parts

variable {exact : ℚ} {sign : Sign} {number other : Float}

theorem mul_positive (sign : Sign) : sign * .positive = sign := by
  cases sign <;> rfl

theorem div_positive (sign : Sign) : sign / .positive = sign := by
  cases sign <;> rfl

/-- Every positive magnitude is rounded to something: it is a quotient of whole numbers. -/
theorem exists_isRounding (isPositive : 0 < exact) (sign : Sign) :
    ∃ parts, IsRounding sign exact parts := by
  have numPos : 0 < exact.num.toNat := by
    have := Rat.num_pos.mpr isPositive
    omega
  have quotient := @isRounding_div sign .positive exact.num.toNat exact.den 0 0 numPos exact.den_pos
  have isExact : (exact.num.toNat * 2 ^ (0 : ℤ) / (exact.den * 2 ^ (0 : ℤ)) : ℚ) = exact := by
    have isNum : (exact.num.toNat : ℚ) = exact.num := by
      have : (exact.num.toNat : ℤ) = exact.num := by omega
      exact_mod_cast this
    rw [zpow_zero, mul_one, mul_one, isNum, Rat.num_div_den]
  rw [isExact, div_positive] at quotient
  exact ⟨_, quotient⟩

/-- A magnitude that is rounded to zero is below the bound. -/
theorem lt_overflowBound_of_zero (isPositive : 0 < exact)
    (isNearest : IsNearest (exact / 2 ^ quantum exact) 0) : exact < overflowBound := by
  by_contra above
  have noMultiple := IsRounding.le_multiple_of_le isPositive (not_lt.mp above) isNearest
  have topPos : 0 < halfTopPlace := two_zpow_pos 970
  rw [Nat.cast_zero, zero_mul] at noMultiple
  linarith

theorem isFinite_packed {parts : UnpackedFloat} (encodable : Encodable parts) :
    (packed parts).isFinite = parts.isFinite :=
  congrArg UnpackedFloat.isFinite (unpacked_packed encodable)

/-- A finite number is a zero or has a significand and a power of two. -/
theorem zero_or_finite (isFinite : number.isFinite = true) :
    (∃ sign, unpacked number = .zero sign) ∨
      ∃ sign significand exponent pos,
        unpacked number = .finite sign significand exponent pos := by
  have partsFinite : (unpacked number).isFinite = true := isFinite
  cases isParts : unpacked number with
  | zero sign => exact .inl ⟨sign, rfl⟩
  | finite sign significand exponent pos => exact .inr ⟨sign, significand, exponent, pos, rfl⟩
  | infinity | notANumber =>
      rw [isParts] at partsFinite
      cases partsFinite

namespace RoundsTo

theorem unique (rounds : RoundsTo sign exact number) (alsoRounds : RoundsTo sign exact other) :
    number = other := by
  rcases rounds with ⟨parts, isRounding, rfl⟩
  rcases alsoRounds with ⟨others, alsoRounding, rfl⟩
  rw [isRounding.unique alsoRounding]

/-- A number is finite just if the magnitude that it rounds is below the bound. -/
theorem isFinite_iff (isPositive : 0 < exact) (rounds : RoundsTo sign exact number) :
    number.isFinite = true ↔ exact < overflowBound := by
  rcases rounds with ⟨parts, isRounding, rfl⟩
  have ofParts := isRounding
  cases isRounding with
  | zero isNearest =>
      rw [isFinite_packed (.zero sign)]
      exact iff_of_true rfl (lt_overflowBound_of_zero isPositive isNearest)
  | @finite _ _ exponent _ _ canonical _ =>
      have overflows := ofParts.overflow_iff isPositive
      by_cases overflow : 971 < exponent
      · rw [packed_of_overflow overflow, isFinite_packed (.infinity sign)]
        exact iff_of_false Bool.false_ne_true (overflows.mp overflow).not_gt
      · rw [isFinite_packed (.finite canonical (not_lt.mp overflow))]
        exact iff_of_true rfl (not_le.mp fun above => overflow (overflows.mpr above))

/-- From the bound on everything is rounded to infinity. -/
theorem of_overflow (above : overflowBound ≤ exact) :
    RoundsTo sign exact (packed (.infinity sign)) := by
  have isPositive : 0 < exact := by
    have topPos : 0 < halfTopPlace := two_zpow_pos 970
    rw [overflowBound] at above
    linarith
  rcases exists_isRounding isPositive sign with ⟨parts, isRounding⟩
  refine ⟨parts, isRounding, ?_⟩
  have ofParts := isRounding
  cases isRounding with
  | zero isNearest => exact absurd (lt_overflowBound_of_zero isPositive isNearest) above.not_gt
  | finite => exact (packed_of_overflow ((ofParts.overflow_iff isPositive).mpr above)).symm

/-- Below half of the least positive number everything is rounded to zero. -/
theorem of_underflow (isPositive : 0 < exact) (below : exact < 2 ^ (-1075 : ℤ)) :
    RoundsTo sign exact (packed (.zero sign)) := by
  refine ⟨_, .zero (.inl ?_), rfl⟩
  have isQuantum : quantum exact = -1074 := by
    have := (lt_two_zpow_iff isPositive (-1075)).mp below
    rw [quantum]
    omega
  have half : (2 : ℚ) ^ (-1075 : ℤ) = 1 / 2 * 2 ^ (-1074 : ℤ) := by
    rw [show (-1075 : ℤ) = -1 + -1074 from rfl, zpow_add₀ (by norm_num), zpow_neg_one, one_div]
  rw [isQuantum, Nat.cast_zero, sub_zero,
    abs_of_pos (div_pos isPositive (two_zpow_pos _)), div_lt_iff₀ (two_zpow_pos _), ← half]
  exact below

/-- The rounding of a magnitude with the other sign is the negative of its rounding. -/
theorem neg (rounds : RoundsTo .positive exact number) : RoundsTo .negative exact (-number) := by
  rcases rounds with ⟨parts, isRounding, rfl⟩
  have negated : ∀ {parts : UnpackedFloat}, Encodable parts → -packed parts = packed parts.neg := by
    intro parts encodable
    change packed (unpacked (packed parts)).neg = _
    rw [unpacked_packed encodable]
  cases isRounding with
  | zero isNearest => exact ⟨_, .zero isNearest, negated (.zero .positive)⟩
  | @finite _ _ exponent pos isNearest canonical value =>
      refine ⟨_, @IsRounding.finite .negative _ _ _ _ pos isNearest canonical value, ?_⟩
      by_cases overflow : 971 < exponent
      · rw [packed_of_overflow overflow, packed_of_overflow overflow, negated (.infinity .positive)]
        rfl
      · exact negated (.finite canonical (not_lt.mp overflow))

end RoundsTo

/-- With all digits in one factor, the quantum of a product is no finer than the product of the
powers. -/
theorem add_le_quantum_mul {left right : ℕ} (normal : 2 ^ 52 ≤ left) (rightPos : 0 < right)
    (leftExponent rightExponent : ℤ) :
    leftExponent + rightExponent ≤
      quantum (left * 2 ^ leftExponent * (right * 2 ^ rightExponent)) := by
  have isPositive := mul_pos (value_pos (by omega : 0 < left) leftExponent)
    (value_pos rightPos rightExponent)
  have leftGe : (2 : ℚ) ^ (52 + leftExponent) ≤ left * 2 ^ leftExponent := by
    rw [zpow_add₀ (by norm_num)]
    exact mul_le_mul_of_nonneg_right (by exact_mod_cast normal) (two_zpow_pos leftExponent).le
  have rightGe : (2 : ℚ) ^ rightExponent ≤ right * 2 ^ rightExponent :=
    le_mul_of_one_le_left (two_zpow_pos rightExponent).le (by exact_mod_cast rightPos)
  have productGe := mul_le_mul leftGe rightGe (two_zpow_pos rightExponent).le
    (value_pos (by omega : 0 < left) leftExponent).le
  rw [← zpow_add₀ (by norm_num), two_zpow_le_iff isPositive] at productGe
  rw [quantum]
  omega

section Operations

variable {left right : Float} {leftSign rightSign : Sign} {leftSignificand rightSignificand : ℕ}
  {leftExponent rightExponent : ℤ} {leftPos : 0 < leftSignificand}
  {rightPos : 0 < rightSignificand}
  (isLeft : unpacked left = .finite leftSign leftSignificand leftExponent leftPos)

include isLeft

/-- The parts of a finite number that is not zero are canonical, and their power is bounded. -/
theorem canonical_of_unpacked : Canonical leftSignificand leftExponent ∧ leftExponent ≤ 971 := by
  have encodable := encodable_unpacked left
  rw [isLeft] at encodable
  cases encodable with
  | finite canonical bounded => exact ⟨canonical, bounded⟩

theorem roundsTo_self : RoundsTo leftSign (leftSignificand * 2 ^ leftExponent) left := by
  refine ⟨_, .self (canonical_of_unpacked isLeft).1 leftPos, ?_⟩
  rw [← isLeft, packed_unpacked]

variable (isRight : unpacked right = .finite rightSign rightSignificand rightExponent rightPos)

include isRight

theorem roundsTo_mul (normal : 2 ^ 52 ≤ leftSignificand ∨ 2 ^ 52 ≤ rightSignificand) :
    RoundsTo (leftSign * rightSign)
      (leftSignificand * 2 ^ leftExponent * (rightSignificand * 2 ^ rightExponent))
      (left * right) := by
  have isProduct : left * right = packed (UnpackedFloat.mul .binary64 (unpacked left)
      (unpacked right)) := rfl
  rw [isProduct, isLeft, isRight]
  refine ⟨_, isRounding_mul ?_, rfl⟩
  rcases normal with isNormal | isNormal
  · exact add_le_quantum_mul isNormal rightPos _ _
  · rw [mul_comm (leftSignificand * 2 ^ leftExponent : ℚ), add_comm]
    exact add_le_quantum_mul isNormal leftPos _ _

theorem roundsTo_div :
    RoundsTo (leftSign / rightSign)
      (leftSignificand * 2 ^ leftExponent / (rightSignificand * 2 ^ rightExponent))
      (left / right) := by
  have isQuotient : left / right = packed (UnpackedFloat.div .binary64 (unpacked left)
      (unpacked right)) := rfl
  rw [isQuotient, isLeft, isRight]
  exact ⟨_, isRounding_div, rfl⟩

end Operations

/-- A number times one is the number, bit by bit. -/
@[simp]
theorem float_mul_one (number : Float) : number * 1 = number := by
  have isOne : unpacked 1 = .finite .positive (2 ^ 52) (-52) (by norm_num) := rfl
  have isProduct : number * 1 =
      packed (UnpackedFloat.mul .binary64 (unpacked number) (unpacked 1)) := rfl
  cases isParts : unpacked number with
  | notANumber =>
      rw [isProduct, isOne, isParts, ← packed_unpacked number, isParts]
      rfl
  | infinity sign | zero sign =>
      rw [isProduct, isOne, isParts, ← packed_unpacked number, isParts]
      cases sign <;> rfl
  | finite sign significand exponent pos =>
      have product := roundsTo_mul isParts isOne (.inr (le_refl _))
      have noFactor : (((2 ^ 52 : ℕ) : ℚ) * 2 ^ (-52 : ℤ)) = 1 := by norm_num
      rw [noFactor, mul_one, mul_positive] at product
      exact product.unique (roundsTo_self isParts)

/-- Multiplication does not depend on the order of the factors. -/
theorem float_mul_comm (left right : Float) : left * right = right * left := by
  have sameSign : ∀ first second : Sign, first * second = second * first := by
    intro first second
    cases first <;> cases second <;> rfl
  change packed (UnpackedFloat.mul .binary64 (unpacked left) (unpacked right)) =
    packed (UnpackedFloat.mul .binary64 (unpacked right) (unpacked left))
  congr 1
  cases unpacked left with
  | notANumber => cases unpacked right <;> rfl
  | infinity sign =>
      cases unpacked right with
      | notANumber | zero => rfl
      | infinity other | finite other => exact congrArg UnpackedFloat.infinity (sameSign sign other)
  | zero sign =>
      cases unpacked right with
      | notANumber | infinity => rfl
      | zero other | finite other => exact congrArg UnpackedFloat.zero (sameSign sign other)
  | finite sign significand exponent =>
      cases unpacked right with
      | notANumber => rfl
      | infinity other => exact congrArg UnpackedFloat.infinity (sameSign sign other)
      | zero other => exact congrArg UnpackedFloat.zero (sameSign sign other)
      | finite other otherSignificand otherExponent =>
          change UnpackedFloat.roundWithAccuracy .binary64 (sign * other)
            (significand * otherSignificand) (exponent + otherExponent) .exact = _
          rw [sameSign, Nat.mul_comm, Int.add_comm]
          rfl

@[simp]
theorem float_one_mul (number : Float) : 1 * number = number := by
  rw [float_mul_comm, float_mul_one]

end Metrology.Binary64

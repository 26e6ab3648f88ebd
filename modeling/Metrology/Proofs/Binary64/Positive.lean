import Metrology.Proofs.Binary64.Quotient

/-!
# Positive numbers

Products and quotients of numbers without a negative sign have none either. They are positive reals
just if the exact result is in the range of magnitudes that are rounded to one: a result of
`overflowBound` or more is rounded to infinity, and one of at most half of the least positive number
is rounded to zero. Once zero, infinity or no number at all has been reached, it is never left.
Whatever the signs, a product is finite just if its factors are and the exact product is below
`overflowBound`.
-/

namespace Metrology.Binary64

open Float.Model
open Float.Model.UnpackedFloat (Sign)

/-- Whether a number is a positive real: finite and above zero. -/
structure IsPositive (number : Float) : Prop where
  isFinite : number.isFinite = true
  zero_lt : 0 < number

/-- Whether a number has no negative sign. It is positive, zero, infinite or no number at all. -/
def Unsigned (number : Float) : Prop :=
  isNegative (unpacked number) = false

/-- Whether a magnitude is rounded to a positive number. -/
structure InPositiveRange (exact : ℚ) : Prop where
  lower : 2 ^ (-1075 : ℤ) < exact
  upper : exact < overflowBound

variable {exact : ℚ} {number left right : Float} {parts : UnpackedFloat}

theorem InPositiveRange.pos (inRange : InPositiveRange exact) : 0 < exact :=
  (two_zpow_pos (-1075)).trans inRange.lower

theorem isPositive_iff_parts :
    IsPositive number ↔
      ∃ significand exponent pos, unpacked number = .finite .positive significand exponent pos := by
  have isZero : unpacked 0 = .zero .positive := rfl
  have isLess : 0 < number ↔ UnpackedFloat.lt (.zero .positive) (unpacked number) = true := by
    rw [← isZero]
    exact decide_eq_true_iff
  constructor
  · rintro ⟨isFinite, zeroLt⟩
    rw [isLess] at zeroLt
    rcases zero_or_finite isFinite with
      ⟨sign, isParts⟩ | ⟨sign, significand, exponent, pos, isParts⟩
    · rw [isParts] at zeroLt
      cases zeroLt
    · cases sign with
      | positive => exact ⟨significand, exponent, pos, isParts⟩
      | negative =>
          rw [isParts] at zeroLt
          cases zeroLt
  · rintro ⟨significand, exponent, pos, isParts⟩
    constructor
    · change (unpacked number).isFinite = true
      rw [isParts]
      rfl
    · rw [isLess, isParts]
      rfl

theorem IsPositive.unsigned (positive : IsPositive number) : Unsigned number := by
  rcases isPositive_iff_parts.mp positive with ⟨_, _, _, isParts⟩
  rw [Unsigned, isParts]
  rfl

theorem IsPositive.exactMagnitude_pos (positive : IsPositive number) :
    0 < exactMagnitude number := by
  rcases isPositive_iff_parts.mp positive with ⟨_, exponent, pos, isParts⟩
  rw [exactMagnitude_of_finite isParts]
  exact value_pos pos exponent

theorem exactMagnitude_nonneg (number : Float) : 0 ≤ exactMagnitude number := by
  unfold exactMagnitude
  split
  · rename_i sign significand exponent pos isParts
    exact (value_pos pos exponent).le
  · exact le_refl 0

/-- Up to half of the least positive number everything is rounded to zero, and nothing else is. -/
theorem isNearest_zero_iff (isPositive : 0 < exact) :
    IsNearest (exact / 2 ^ quantum exact) 0 ↔ exact ≤ 2 ^ (-1075 : ℤ) := by
  have quantumPos := two_zpow_pos (quantum exact)
  have half : (2 : ℚ) ^ (-1075 : ℤ) = 1 / 2 * 2 ^ (-1074 : ℤ) := by
    rw [show (-1075 : ℤ) = -1 + -1074 from rfl, zpow_add₀ (by norm_num), zpow_neg_one, one_div]
  have inQuanta : exact / 2 ^ quantum exact - (0 : ℕ) = exact / 2 ^ quantum exact := by simp
  have quotientPos := div_pos isPositive quantumPos
  constructor
  · intro isNearest
    have near := isNearest.abs_sub_le
    rw [inQuanta, abs_of_pos quotientPos] at near
    have isBottom : quantum exact = -1074 := by
      by_contra notBottom
      have above : -1074 < quantum exact :=
        lt_of_le_of_ne (le_max_right _ _) (Ne.symm notBottom)
      have := le_div_quantum isPositive above
      linarith
    rw [isBottom, div_le_iff₀ (two_zpow_pos _)] at near
    rw [half]
    exact near
  · intro below
    have isBottom : quantum exact = -1074 := by
      have belowNext : exact < 2 ^ (-1074 : ℤ) := by
        have := two_zpow_pos (-1074)
        rw [half] at below
        linarith
      rw [lt_two_zpow_iff isPositive] at belowNext
      rw [quantum]
      omega
    have near : exact / 2 ^ quantum exact ≤ 1 / 2 := by
      rw [isBottom, div_le_iff₀ (two_zpow_pos _), ← half]
      exact below
    rw [IsNearest, inQuanta, abs_of_pos quotientPos]
    rcases near.lt_or_eq with closer | isHalf
    · exact .inl closer
    · exact .inr ⟨isHalf, rfl⟩

namespace RoundsTo

theorem unsigned (rounds : RoundsTo .positive exact number) : Unsigned number := by
  rcases rounds with ⟨parts, isRounding, rfl⟩
  rw [Unsigned]
  cases isRounding with
  | zero => rw [unpacked_packed (.zero .positive)]; rfl
  | @finite _ _ exponent _ _ canonical _ =>
      by_cases overflow : 971 < exponent
      · rw [packed_of_overflow overflow, unpacked_packed (.infinity .positive)]
        rfl
      · rw [unpacked_packed (.finite canonical (not_lt.mp overflow))]
        rfl

/-- What a positive magnitude is rounded to is positive just if the magnitude is in the range. -/
theorem isPositive_iff (isPositive : 0 < exact) (rounds : RoundsTo .positive exact number) :
    IsPositive number ↔ InPositiveRange exact := by
  have isFiniteIff := rounds.isFinite_iff isPositive
  have zeroIff := isNearest_zero_iff isPositive
  rcases rounds with ⟨parts, isRounding, rfl⟩
  constructor
  · intro positive
    refine ⟨?_, isFiniteIff.mp positive.isFinite⟩
    by_contra tooSmall
    have isZero : IsRounding .positive exact (.zero .positive) :=
      .zero (zeroIff.mpr (not_lt.mp tooSmall))
    rw [isRounding.unique isZero] at positive
    rcases isPositive_iff_parts.mp positive with ⟨_, _, _, isParts⟩
    rw [unpacked_packed (.zero .positive)] at isParts
    cases isParts
  · intro inRange
    have ofParts := isRounding
    cases isRounding with
    | zero isNearest => exact absurd (zeroIff.mp isNearest) inRange.lower.not_ge
    | @finite _ significand exponent pos _ canonical _ =>
        have bounded : ¬971 < exponent := fun overflow =>
          absurd ((ofParts.overflow_iff isPositive).mp overflow) inRange.upper.not_ge
        exact isPositive_iff_parts.mpr ⟨significand, exponent, pos,
          unpacked_packed (.finite canonical (not_lt.mp bounded))⟩

end RoundsTo

/-- What a number without a negative sign is where it is not positive. -/
inductive Degenerate : UnpackedFloat → Prop where
  | zero : Degenerate (.zero .positive)
  | infinity : Degenerate (.infinity .positive)
  | notANumber : Degenerate .notANumber

theorem Degenerate.encodable (degenerate : Degenerate parts) : Encodable parts := by
  cases degenerate with
  | zero => exact .zero .positive
  | infinity => exact .infinity .positive
  | notANumber => exact .notANumber

theorem Degenerate.exactMagnitude_eq_zero (degenerate : Degenerate (unpacked number)) :
    exactMagnitude number = 0 := by
  unfold exactMagnitude
  generalize unpacked number = parts at degenerate
  cases degenerate <;> rfl

theorem Degenerate.isNegative_eq_false (degenerate : Degenerate parts) :
    isNegative parts = false := by
  cases degenerate <;> rfl

theorem Unsigned.isPositive_or_degenerate (unsigned : Unsigned number) :
    IsPositive number ∨ Degenerate (unpacked number) := by
  rw [isPositive_iff_parts]
  rw [Unsigned] at unsigned
  generalize unpacked number = parts at unsigned
  cases parts with
  | notANumber => exact .inr .notANumber
  | infinity sign =>
      cases sign with
      | positive => exact .inr .infinity
      | negative => cases unsigned
  | zero sign =>
      cases sign with
      | positive => exact .inr .zero
      | negative => cases unsigned
  | finite sign significand exponent pos =>
      cases sign with
      | positive => exact .inl ⟨significand, exponent, pos, rfl⟩
      | negative => cases unsigned

/-- Without a negative sign a number is positive just if its magnitude is. -/
theorem Unsigned.isPositive_iff (unsigned : Unsigned number) :
    IsPositive number ↔ 0 < exactMagnitude number := by
  rcases unsigned.isPositive_or_degenerate with positive | degenerate
  · exact iff_of_true positive positive.exactMagnitude_pos
  · have isZero := degenerate.exactMagnitude_eq_zero
    exact iff_of_false (fun positive => positive.exactMagnitude_pos.ne' isZero)
      fun isPositive => isPositive.ne' isZero

/-- Whether a number is what an operation on numbers without a negative sign gives for an exact
result: its rounding, or nothing positive where the exact result counts as zero because an operand
was not positive. -/
inductive Gives (exact : ℚ) (number : Float) : Prop where
  | rounded (pos : 0 < exact) (rounds : RoundsTo .positive exact number)
  | degenerate (isZero : exact = 0) (degenerate : Degenerate (unpacked number))

namespace Gives

theorem unsigned (gives : Gives exact number) : Unsigned number := by
  cases gives with
  | rounded _ rounds => exact rounds.unsigned
  | degenerate _ degenerate => exact degenerate.isNegative_eq_false

theorem isPositive_iff (gives : Gives exact number) :
    IsPositive number ↔ InPositiveRange exact := by
  cases gives with
  | rounded pos rounds => exact rounds.isPositive_iff pos
  | degenerate isZero degenerate =>
      refine iff_of_false (fun positive => ?_) fun inRange => inRange.pos.ne' isZero
      exact positive.exactMagnitude_pos.ne' degenerate.exactMagnitude_eq_zero

end Gives

section Operations

/-- A product with something that is not positive is not positive. -/
theorem degenerate_mul {other : UnpackedFloat} (degenerate : Degenerate parts)
    (unsigned : isNegative other = false) :
    Degenerate (UnpackedFloat.mul .binary64 parts other) ∧
      Degenerate (UnpackedFloat.mul .binary64 other parts) := by
  cases other with
  | notANumber => cases degenerate <;> exact ⟨.notANumber, .notANumber⟩
  | infinity sign | zero sign | finite sign =>
      cases sign with
      | negative => cases unsigned
      | positive => cases degenerate <;> constructor <;> constructor

theorem degenerate_one_div (degenerate : Degenerate parts) :
    Degenerate (UnpackedFloat.div .binary64 (unpacked 1) parts) := by
  cases degenerate with
  | zero => exact .infinity
  | infinity => exact .zero
  | notANumber => exact .notANumber

theorem unpacked_mul (encodable : Encodable parts)
    (isParts : UnpackedFloat.mul .binary64 (unpacked left) (unpacked right) = parts) :
    unpacked (left * right) = parts := by
  rw [← unpacked_packed encodable, ← isParts]
  rfl

theorem unpacked_div (encodable : Encodable parts)
    (isParts : UnpackedFloat.div .binary64 (unpacked left) (unpacked right) = parts) :
    unpacked (left / right) = parts := by
  rw [← unpacked_packed encodable, ← isParts]
  rfl

/-- A product of finite numbers is the rounding of the exact product, whatever their digits: where
neither has all of its digits, both are at the least power of two. -/
theorem roundsTo_product {leftSign rightSign : Sign} {leftSignificand rightSignificand : ℕ}
    {leftExponent rightExponent : ℤ} {leftPos : 0 < leftSignificand}
    {rightPos : 0 < rightSignificand}
    (isLeft : unpacked left = .finite leftSign leftSignificand leftExponent leftPos)
    (isRight : unpacked right = .finite rightSign rightSignificand rightExponent rightPos) :
    RoundsTo (leftSign * rightSign)
      (leftSignificand * 2 ^ leftExponent * (rightSignificand * 2 ^ rightExponent))
      (left * right) := by
  rcases (canonical_of_unpacked isLeft).1.normal with normal | leftBottom
  · exact roundsTo_mul isLeft isRight (.inl normal)
  rcases (canonical_of_unpacked isRight).1.normal with normal | rightBottom
  · exact roundsTo_mul isLeft isRight (.inr normal)
  have isProduct : left * right = packed (UnpackedFloat.mul .binary64 (unpacked left)
      (unpacked right)) := rfl
  rw [isProduct, isLeft, isRight]
  refine ⟨_, isRounding_mul ?_, rfl⟩
  have := le_max_right (Int.log 2 ((leftSignificand * 2 ^ leftExponent *
    (rightSignificand * 2 ^ rightExponent) : ℚ)) - 52) (-1074)
  rw [quantum]
  omega

/-- What is no finite number is none after a multiplication either, even one by zero. -/
theorem isFinite_mul_of_left (notFinite : left.isFinite = false) (right : Float) :
    (left * right).isFinite = false := by
  obtain ⟨parts, encodable, partsNotFinite, isParts⟩ : ∃ parts, Encodable parts ∧
      parts.isFinite = false ∧
        UnpackedFloat.mul .binary64 (unpacked left) (unpacked right) = parts := by
    change (unpacked left).isFinite = false at notFinite
    generalize unpacked left = leftParts at notFinite
    cases leftParts with
    | zero | finite => cases notFinite
    | notANumber => exact ⟨_, .notANumber, rfl, by cases unpacked right <;> rfl⟩
    | infinity sign =>
        cases unpacked right with
        | notANumber | zero => exact ⟨_, .notANumber, rfl, rfl⟩
        | infinity | finite => exact ⟨_, .infinity _, rfl, rfl⟩
  change (unpacked (left * right)).isFinite = false
  rwa [unpacked_mul encodable isParts]

theorem isFinite_zero_mul {sign : Sign} (isZero : unpacked left = .zero sign)
    (rightFinite : right.isFinite = true) : (left * right).isFinite = true := by
  change (unpacked (left * right)).isFinite = true
  rcases zero_or_finite rightFinite with ⟨rightSign, isRight⟩ | ⟨rightSign, _, _, _, isRight⟩ <;>
    rw [unpacked_mul (.zero (sign * rightSign)) (by rw [isZero, isRight]; rfl)] <;> rfl

/-- A product is finite just if both factors are and the exact product is below the bound. -/
theorem isFinite_mul_iff :
    (left * right).isFinite = true ↔
      left.isFinite = true ∧ right.isFinite = true ∧
        exactMagnitude left * exactMagnitude right < overflowBound := by
  cases leftFinite : left.isFinite with
  | false => simp [isFinite_mul_of_left leftFinite]
  | true =>
      cases rightFinite : right.isFinite with
      | false => simp [float_mul_comm left, isFinite_mul_of_left rightFinite]
      | true =>
          rw [and_iff_right rfl, and_iff_right rfl]
          rcases zero_or_finite leftFinite with ⟨_, isLeft⟩ | ⟨_, _, _, leftPos, isLeft⟩
          · rw [exactMagnitude, isLeft, zero_mul]
            exact iff_of_true (isFinite_zero_mul isLeft rightFinite) overflowBound_pos
          rcases zero_or_finite rightFinite with ⟨_, isRight⟩ | ⟨_, _, _, rightPos, isRight⟩
          · rw [float_mul_comm, exactMagnitude.eq_def right, isRight, mul_zero]
            exact iff_of_true (isFinite_zero_mul isRight leftFinite) overflowBound_pos
          · rw [exactMagnitude_of_finite isLeft, exactMagnitude_of_finite isRight]
            exact (roundsTo_product isLeft isRight).isFinite_iff
              (mul_pos (value_pos leftPos _) (value_pos rightPos _))

/-- What a product of numbers without a negative sign is. -/
theorem gives_mul (unsignedLeft : Unsigned left) (unsignedRight : Unsigned right) :
    Gives (exactMagnitude left * exactMagnitude right) (left * right) := by
  rcases unsignedLeft.isPositive_or_degenerate with leftPositive | degenerate
  · rcases unsignedRight.isPositive_or_degenerate with rightPositive | degenerate
    · refine .rounded (mul_pos leftPositive.exactMagnitude_pos rightPositive.exactMagnitude_pos) ?_
      rcases isPositive_iff_parts.mp leftPositive with ⟨_, _, _, isLeft⟩
      rcases isPositive_iff_parts.mp rightPositive with ⟨_, _, _, isRight⟩
      rw [exactMagnitude_of_finite isLeft, exactMagnitude_of_finite isRight]
      exact roundsTo_product isLeft isRight
    · have isDegenerate := (degenerate_mul degenerate unsignedLeft).2
      refine .degenerate (by rw [degenerate.exactMagnitude_eq_zero, mul_zero]) ?_
      rw [unpacked_mul isDegenerate.encodable rfl]
      exact isDegenerate
  · have isDegenerate := (degenerate_mul degenerate unsignedRight).1
    refine .degenerate (by rw [degenerate.exactMagnitude_eq_zero, zero_mul]) ?_
    rw [unpacked_mul isDegenerate.encodable rfl]
    exact isDegenerate

/-- Only positive factors have a product in the range. -/
theorem isPositive_of_mul (unsignedLeft : Unsigned left) (unsignedRight : Unsigned right)
    (inRange : InPositiveRange (exactMagnitude left * exactMagnitude right)) :
    IsPositive left ∧ IsPositive right := by
  have productPos := inRange.pos
  rw [unsignedLeft.isPositive_iff, unsignedRight.isPositive_iff]
  exact ⟨pos_of_mul_pos_left productPos (exactMagnitude_nonneg right),
    pos_of_mul_pos_right productPos (exactMagnitude_nonneg left)⟩

theorem unpacked_one : unpacked 1 = .finite .positive 4503599627370496 (-52) (by decide) :=
  rfl

@[simp]
theorem exactMagnitude_one : exactMagnitude 1 = 1 := by
  rw [exactMagnitude_of_finite unpacked_one]
  norm_num

theorem isPositive_one : IsPositive 1 :=
  isPositive_iff_parts.mpr ⟨_, _, _, unpacked_one⟩

/-- What the reciprocal of a number without a negative sign is. -/
theorem gives_one_div (unsigned : Unsigned number) :
    Gives (1 / exactMagnitude number) (1 / number) := by
  rcases unsigned.isPositive_or_degenerate with positive | degenerate
  · refine .rounded (div_pos one_pos positive.exactMagnitude_pos) ?_
    rcases isPositive_iff_parts.mp positive with ⟨_, _, _, isParts⟩
    rw [← exactMagnitude_one, exactMagnitude_of_finite unpacked_one,
      exactMagnitude_of_finite isParts]
    exact roundsTo_div unpacked_one isParts
  · have isDegenerate := degenerate_one_div degenerate
    refine .degenerate (by rw [degenerate.exactMagnitude_eq_zero, div_zero]) ?_
    rw [unpacked_div isDegenerate.encodable rfl]
    exact isDegenerate

end Operations

/-- Whether a number is positive and differs from one by a factor of at most a power of two. -/
structure Within (weight : ℕ) (number : Float) : Prop where
  positive : IsPositive number
  lower : 2 ^ (-(weight : ℤ)) ≤ exactMagnitude number
  upper : exactMagnitude number ≤ 2 ^ (weight : ℤ)

section Within

variable {power : ℤ} {weight leftWeight rightWeight : ℕ}

theorem RoundsTo.exists_multiple (rounds : RoundsTo .positive exact number)
    (positive : IsPositive number) :
    ∃ multiple, IsNearest (exact / 2 ^ quantum exact) multiple ∧
      exactMagnitude number = multiple * 2 ^ quantum exact := by
  rcases rounds with ⟨parts, isRounding, rfl⟩
  cases isRounding with
  | zero =>
      have isZero : exactMagnitude (packed (.zero .positive)) = 0 := by
        rw [exactMagnitude, unpacked_packed (.zero .positive)]
      exact absurd isZero positive.exactMagnitude_pos.ne'
  | @finite multiple significand exponent pos isNearest canonical value =>
      by_cases overflow : 971 < exponent
      · have isFinite := positive.isFinite
        rw [packed_of_overflow overflow, isFinite_packed (.infinity .positive)] at isFinite
        cases isFinite
      · have encodable : Encodable (.finite .positive significand exponent pos) :=
          .finite canonical (not_lt.mp overflow)
        have isParts := exactMagnitude_of_finite (unpacked_packed encodable)
        exact ⟨multiple, isNearest, isParts.trans value⟩

/-- Rounding does not lead across a power of two, from above. -/
theorem le_multiple_of_two_zpow_le {multiple : ℕ} (isPositive : 0 < exact)
    (isNearest : IsNearest (exact / 2 ^ quantum exact) multiple) (atLeast : -1074 ≤ power)
    (above : 2 ^ power ≤ exact) : 2 ^ power ≤ (multiple : ℚ) * 2 ^ quantum exact := by
  have quantumPos := two_zpow_pos (quantum exact)
  rcases le_or_gt (quantum exact) power with coarse | fine
  · obtain ⟨digits, isDigits⟩ : ∃ digits : ℕ, power = digits + quantum exact :=
      ⟨(power - quantum exact).toNat, by omega⟩
    rw [isDigits, zpow_add₀ (by norm_num), zpow_natCast] at above ⊢
    refine mul_le_mul_of_nonneg_right ?_ quantumPos.le
    have inQuanta : ((2 ^ digits : ℕ) : ℚ) ≤ exact / 2 ^ quantum exact := by
      rw [le_div_iff₀ quantumPos]
      exact_mod_cast above
    exact_mod_cast isNearest.le_of_le inQuanta
  · have inQuanta : ((1 : ℕ) : ℚ) ≤ exact / 2 ^ quantum exact := by
      have := le_div_quantum isPositive (atLeast.trans_lt fine)
      push_cast
      linarith
    have oneLe : (1 : ℚ) ≤ multiple := by exact_mod_cast isNearest.le_of_le inQuanta
    have powerLe : (2 : ℚ) ^ power ≤ 2 ^ quantum exact :=
      zpow_le_zpow_right₀ (by norm_num) fine.le
    exact powerLe.trans (le_mul_of_one_le_left quantumPos.le oneLe)

/-- Rounding does not lead across a power of two, from below. -/
theorem multiple_le_of_le_two_zpow {multiple : ℕ} (isPositive : 0 < exact)
    (isNearest : IsNearest (exact / 2 ^ quantum exact) multiple) (atLeast : -1074 ≤ power)
    (below : exact ≤ 2 ^ power) : (multiple : ℚ) * 2 ^ quantum exact ≤ 2 ^ power := by
  have quantumPos := two_zpow_pos (quantum exact)
  have coarse : quantum exact ≤ power := by
    have belowNext : exact < 2 ^ (power + 1) :=
      below.trans_lt (zpow_lt_zpow_right₀ (by norm_num) (by omega))
    rw [lt_two_zpow_iff isPositive] at belowNext
    rw [quantum]
    omega
  obtain ⟨digits, isDigits⟩ : ∃ digits : ℕ, power = digits + quantum exact :=
    ⟨(power - quantum exact).toNat, by omega⟩
  rw [isDigits, zpow_add₀ (by norm_num), zpow_natCast] at below ⊢
  refine mul_le_mul_of_nonneg_right ?_ quantumPos.le
  have inQuanta : exact / 2 ^ quantum exact ≤ (2 ^ digits : ℕ) := by
    rw [div_le_iff₀ quantumPos]
    exact_mod_cast below
  rcases inQuanta.lt_or_eq with less | isPower
  · exact_mod_cast isNearest.le_of_lt less
  · rw [isPower] at isNearest
    exact_mod_cast (isNearest.unique (isNearest_natCast _)).le

theorem two_zpow_lt_overflowBound (atMost : weight ≤ 1023) :
    (2 : ℚ) ^ (weight : ℤ) < overflowBound := by
  have powerLe : (2 : ℚ) ^ (weight : ℤ) ≤ 2 ^ ((970 : ℤ) + (53 : ℕ)) :=
    zpow_le_zpow_right₀ (by norm_num) (by omega)
  have topPos : 0 < halfTopPlace := two_zpow_pos 970
  rw [IsRounding.zpow_add_970] at powerLe
  rw [overflowBound]
  linarith

/-- What an operation gives is within a power of two if the exact result is. -/
theorem Gives.within (gives : Gives exact number) (atMost : weight ≤ 1023)
    (lower : 2 ^ (-(weight : ℤ)) ≤ exact) (upper : exact ≤ 2 ^ (weight : ℤ)) :
    Within weight number := by
  have exactPos : 0 < exact := (two_zpow_pos _).trans_le lower
  have inRange : InPositiveRange exact := by
    refine ⟨lt_of_lt_of_le ?_ lower, upper.trans_lt (two_zpow_lt_overflowBound atMost)⟩
    exact zpow_lt_zpow_right₀ (by norm_num) (by omega)
  have positive := gives.isPositive_iff.mpr inRange
  cases gives with
  | degenerate isZero => exact absurd isZero exactPos.ne'
  | rounded _ rounds =>
      rcases rounds.exists_multiple positive with ⟨multiple, isNearest, value⟩
      refine ⟨positive, ?_, ?_⟩ <;> rw [value]
      · exact le_multiple_of_two_zpow_le exactPos isNearest (by omega) lower
      · exact multiple_le_of_le_two_zpow exactPos isNearest (by omega) upper

theorem within_one : Within 0 1 :=
  ⟨isPositive_one, by simp, by simp⟩

theorem Within.mul (leftWithin : Within leftWeight left) (rightWithin : Within rightWeight right)
    (atMost : leftWeight + rightWeight ≤ 1023) :
    Within (leftWeight + rightWeight) (left * right) := by
  have gives := gives_mul leftWithin.positive.unsigned rightWithin.positive.unsigned
  refine gives.within atMost ?_ ?_
  · rw [Nat.cast_add, neg_add, zpow_add₀ (by norm_num)]
    exact mul_le_mul leftWithin.lower rightWithin.lower (two_zpow_pos _).le
      (exactMagnitude_nonneg left)
  · rw [Nat.cast_add, zpow_add₀ (by norm_num)]
    exact mul_le_mul leftWithin.upper rightWithin.upper (exactMagnitude_nonneg right)
      (two_zpow_pos _).le

theorem Within.reciprocal (within : Within weight number) (atMost : weight ≤ 1023) :
    Within weight (1 / number) := by
  have magnitudePos := within.positive.exactMagnitude_pos
  have lower := within.lower
  have upper := within.upper
  refine (gives_one_div within.positive.unsigned).within atMost ?_ ?_
  · rw [zpow_neg, ← one_div]
    exact one_div_le_one_div_of_le magnitudePos upper
  · rw [zpow_neg] at lower
    rw [div_le_iff₀ magnitudePos]
    rwa [inv_le_iff_one_le_mul₀ (two_zpow_pos _), mul_comm] at lower

end Within

end Metrology.Binary64

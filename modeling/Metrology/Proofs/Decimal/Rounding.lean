import Metrology.Proofs.Binary64.Whole

/-!
# Decimal numbers as binary64 numbers

A decimal number is read as the binary64 number that its exact value is rounded to, however large or
small its coefficient and its power of ten are. So two decimal numbers of one sign and one value are
read as the same number.
-/

namespace Metrology.Decimal

open Binary64
open Float.Model
open Float.Model.UnpackedFloat (Sign)

/-- The exact value of a decimal number without its sign. -/
def magnitude (number : Decimal) : ℚ :=
  number.coefficient * 10 ^ number.exponent

def sign (number : Decimal) : Sign :=
  if number.negative then .negative else .positive

theorem ten_zpow_pos (power : ℤ) : (0 : ℚ) < 10 ^ power :=
  zpow_pos (by norm_num) power

variable {number other : Decimal} {coefficient : ℕ}

theorem magnitude_pos (nonzero : number.coefficient ≠ 0) : 0 < number.magnitude :=
  mul_pos (by exact_mod_cast Nat.pos_of_ne_zero nonzero) (ten_zpow_pos _)

theorem magnitude_eq_zero_iff : number.magnitude = 0 ↔ number.coefficient = 0 := by
  constructor
  · intro isZero
    by_contra nonzero
    exact (magnitude_pos nonzero).ne' isZero
  · intro isZero
    rw [magnitude, isZero, Nat.cast_zero, zero_mul]

section Powers

variable {power digits : ℤ}

/-- Powers of ten and of two compare as their exponents do, by a factor close to the decimal
logarithm of two. -/
theorem ten_zpow_le {twos tens : ℕ} (nonzero : twos ≠ 0)
    (factors : ((10 : ℚ) ^ tens) ^ digits ≤ (2 ^ twos) ^ digits)
    (below : twos * power ≤ tens * digits) : (10 : ℚ) ^ power ≤ 2 ^ digits := by
  rw [← pow_le_pow_iff_left₀ (ten_zpow_pos power).le (two_zpow_pos digits).le nonzero]
  calc ((10 : ℚ) ^ power) ^ twos = 10 ^ (twos * power) := by
        rw [← zpow_natCast, ← zpow_mul, mul_comm]
    _ ≤ 10 ^ (tens * digits) := zpow_le_zpow_right₀ (by norm_num) below
    _ = (10 ^ tens) ^ digits := by rw [zpow_mul, zpow_natCast]
    _ ≤ (2 ^ twos) ^ digits := factors
    _ = (2 ^ digits) ^ twos := by
        rw [← zpow_natCast, ← zpow_natCast, ← zpow_mul, ← zpow_mul, mul_comm]

/-- The factor for exponents that are not negative is a little less than the logarithm. -/
theorem ten_zpow_le_of_nonneg (nonneg : 0 ≤ digits) (below : 103 * power ≤ 31 * digits) :
    (10 : ℚ) ^ power ≤ 2 ^ digits := by
  have factors : ((10 : ℚ) ^ 31) ^ digits ≤ (2 ^ 103) ^ digits :=
    zpow_le_zpow_left₀ nonneg (by norm_num) (by norm_num)
  exact ten_zpow_le (by norm_num) factors below

/-- The factor for negative exponents is a little more than the logarithm. -/
theorem ten_zpow_le_of_nonpos (nonpos : digits ≤ 0) (below : 93 * power ≤ 28 * digits) :
    (10 : ℚ) ^ power ≤ 2 ^ digits := by
  have powers : ((2 : ℚ) ^ 93) ^ (-digits) ≤ (10 ^ 28) ^ (-digits) :=
    zpow_le_zpow_left₀ (by omega) (by norm_num) (by norm_num)
  rw [zpow_neg, zpow_neg, inv_le_inv₀ (zpow_pos (by norm_num) _) (zpow_pos (by norm_num) _)]
    at powers
  exact ten_zpow_le (by norm_num) powers below

/-- The bound of overflow has 309 digits. -/
theorem overflowBound_le (atLeast : 309 ≤ power) : overflowBound ≤ 10 ^ power := by
  have topPos : 0 < halfTopPlace := two_zpow_pos 970
  have reciprocal : (10 : ℚ) ^ (-power) ≤ 2 ^ (-1024 : ℤ) :=
    ten_zpow_le_of_nonpos (by norm_num) (by omega)
  rw [zpow_neg, zpow_neg, inv_le_inv₀ (ten_zpow_pos power) (two_zpow_pos 1024)] at reciprocal
  refine le_trans ?_ reciprocal
  rw [overflowBound]
  change _ ≤ (2 : ℚ) ^ (970 + (54 : ℕ) : ℤ)
  rw [IsRounding.zpow_add_970 54]
  linarith

end Powers

section Point

/-- The position of the decimal point bounds the value from above. -/
theorem magnitude_lt (number : Decimal) : number.magnitude < 10 ^ number.point := by
  have below : number.coefficient < 10 ^ (digitsOf number.coefficient).length :=
    (Nat.length_toDigits_le_iff (by norm_num) Nat.length_toDigits_pos).mp (le_refl _)
  rw [magnitude, point, zpow_add₀ (by norm_num), zpow_natCast]
  exact mul_lt_mul_of_pos_right (by exact_mod_cast below) (ten_zpow_pos _)

/-- The position of the decimal point bounds the value from below, if the value is not zero. -/
theorem le_magnitude (nonzero : number.coefficient ≠ 0) :
    10 ^ (number.point - 1) ≤ number.magnitude := by
  obtain ⟨length, isLength⟩ : ∃ length, (digitsOf number.coefficient).length = length + 1 :=
    ⟨_, (Nat.succ_pred_eq_of_pos Nat.length_toDigits_pos).symm⟩
  have above : 10 ^ length ≤ number.coefficient := by
    by_contra below
    cases length with
    | zero => omega
    | succ shorter =>
        have fewer := (Nat.length_toDigits_le_iff (by norm_num) (Nat.succ_pos shorter)).mpr
          (not_le.mp below)
        change (digitsOf number.coefficient).length ≤ _ at fewer
        omega
  have isPoint : number.point - 1 = length + number.exponent := by
    rw [point, isLength]
    push_cast
    ring
  rw [magnitude, isPoint, zpow_add₀ (by norm_num), zpow_natCast]
  exact mul_le_mul_of_nonneg_right (by exact_mod_cast above) (ten_zpow_pos _).le

end Point

section Scientific

/-- Small coefficients are numbers. -/
theorem toFloat_toUInt64 (pos : 0 < coefficient) (small : coefficient < 2 ^ 53) :
    coefficient.toUInt64.toFloat =
      packed (UnpackedFloat.round .binary64 .positive coefficient 0) := by
  have isNat : coefficient.toUInt64.toNat = coefficient := by
    exact UInt64.toNat_ofNat_of_lt' (small.trans (by decide))
  change packed (UnpackedFloat.normalize .binary64 coefficient.toUInt64.toNat 0 .positive) = _
  rw [isNat, UnpackedFloat.normalize]
  have isGreater : compare (coefficient : ℤ) 0 = .gt := by
    rw [compare_gt_iff_gt]
    omega
  rw [isGreater, Int.toNat_natCast]

/-- Each entry of the table of powers of ten is the power that it stands for. -/
theorem exactlyRepresentablePowersOfTen_eq {power : ℕ}
    (inTable : power < Float.exactlyRepresentablePowersOfTen.size) :
    Float.exactlyRepresentablePowersOfTen[power] =
      packed (UnpackedFloat.round .binary64 .positive (5 ^ power) power) := by
  apply eq_of_toBits_eq
  revert power
  decide +kernel

theorem roundsTo_packed_product {factor shifted : ℕ} {shift : ℤ} {shiftedPos : 0 < shifted}
    (pos : 0 < coefficient) (factorPos : 0 < factor) (isShifted : shifted = coefficient * 2 ^ 53)
    (isShift : shift = -53) :
    RoundsTo .positive (coefficient * factor)
      (packed (UnpackedFloat.mul .binary64 (.finite .positive shifted shift shiftedPos)
        (.finite .positive factor 0 factorPos))) := by
  have normal : 2 ^ 52 ≤ shifted := by
    omega
  have isRounding := @isRounding_mul .positive .positive _ _ _ _ shiftedPos factorPos
    (add_le_quantum_mul normal factorPos shift 0)
  have isExact : (shifted * 2 ^ shift * (factor * 2 ^ (0 : ℤ)) : ℚ) = coefficient * factor := by
    rw [isShifted, isShift]
    push_cast
    field_simp
    norm_num
  rw [mul_positive, isExact] at isRounding
  exact ⟨_, isRounding, rfl⟩

theorem roundsTo_packed_quotient {divisor : ℕ} (pos : 0 < coefficient) (divisorPos : 0 < divisor) :
    RoundsTo .positive (coefficient / divisor)
      (packed (UnpackedFloat.div .binary64 (.finite .positive coefficient 0 pos)
        (.finite .positive divisor 0 divisorPos))) := by
  have isRounding := @isRounding_div .positive .positive _ _ 0 0 pos divisorPos
  rw [div_positive, zpow_zero, mul_one, mul_one] at isRounding
  exact ⟨_, isRounding, rfl⟩

/-- A coefficient and a power of ten together are rounded once, by way of exact integers. -/
theorem roundsTo_packed_ofScientific (pos : 0 < coefficient) (power : ℤ) :
    RoundsTo .positive (coefficient * 10 ^ power)
      (packed (UnpackedFloat.ofScientific .binary64 coefficient power)) := by
  have isPositive := mul_pos (show (0 : ℚ) < coefficient by exact_mod_cast pos) (ten_zpow_pos power)
  have atLeastOne : (1 : ℚ) ≤ coefficient := by exact_mod_cast pos
  unfold UnpackedFloat.ofScientific
  rw [dif_neg pos.ne']
  by_cases tooLarge : power > 2 ^ Format.binary64.exponentBits
  · rw [if_pos tooLarge]
    have powerGe : 309 ≤ power := by
      have : (2 ^ 11 : ℤ) < power := tooLarge
      omega
    exact .of_overflow ((overflowBound_le powerGe).trans
      (le_mul_of_one_le_left (ten_zpow_pos power).le atLeastOne))
  rw [if_neg tooLarge]
  by_cases tooSmall : power < -(2 ^ Format.binary64.exponentBits + coefficient.log2)
  · rw [if_pos tooSmall]
    have powerLe : (10 : ℚ) ^ power ≤ 2 ^ (-1076 - coefficient.log2 : ℤ) := by
      have : power < -((2 ^ 11 : ℤ) + coefficient.log2) := tooSmall
      exact ten_zpow_le_of_nonpos (by omega) (by omega)
    have coefficientLt : (coefficient : ℚ) < 2 ^ (coefficient.log2 + 1 : ℤ) := by
      have : coefficient < 2 ^ (coefficient.log2 + 1) := Nat.lt_log2_self
      exact_mod_cast this
    refine .of_underflow isPositive ?_
    have product := mul_lt_mul coefficientLt powerLe (ten_zpow_pos power) (two_zpow_pos _).le
    rw [← zpow_add₀ (by norm_num)] at product
    rw [show (-1075 : ℤ) = coefficient.log2 + 1 + (-1076 - coefficient.log2) by omega]
    exact product
  rw [if_neg tooSmall]
  by_cases nonneg : 0 ≤ power
  · rw [if_pos nonneg]
    have isPower : ((10 ^ power.toNat : ℕ) : ℚ) = 10 ^ power := by
      rw [Nat.cast_pow, ← zpow_natCast, Int.toNat_of_nonneg nonneg]
      rfl
    have mantissaBits : Format.binary64.mantissaBits = 53 := rfl
    rw [← isPower]
    refine roundsTo_packed_product pos (Nat.pow_pos (by norm_num)) ?_ rfl
    rw [Nat.shiftLeft_eq, mantissaBits]
  · rw [if_neg nonneg]
    have isPower : (1 / (10 ^ (-power).toNat : ℕ) : ℚ) = 10 ^ power := by
      rw [Nat.cast_pow, ← zpow_natCast, Int.toNat_of_nonneg (by omega), zpow_neg, one_div, inv_inv]
      rfl
    rw [← isPower, mul_one_div]
    exact roundsTo_packed_quotient pos (Nat.pow_pos (by norm_num))

/-- The power of ten that a flag for its sign and a number stand for. -/
def signedPower (negative : Bool) (power : ℕ) : ℤ :=
  if negative then -power else power

/-- A small coefficient and a small power of ten are both numbers, and one product or quotient of
them is rounded. -/
theorem roundsTo_ofScientific (pos : 0 < coefficient) (negative : Bool) (power : ℕ) :
    RoundsTo .positive (coefficient * 10 ^ signedPower negative power)
      (Float.ofScientific coefficient negative power) := by
  unfold Float.ofScientific
  split
  · rename_i isFast
    rcases @unpacked_packed_round .positive _ 0 pos isFast.1 (by norm_num) (by norm_num) with
      ⟨left, leftPower, leftPos, isLeft, leftValue⟩
    have fiveSmall : 5 ^ power < 2 ^ 53 :=
      (Nat.pow_le_pow_right (by norm_num) isFast.2).trans_lt (by norm_num)
    rcases @unpacked_packed_round .positive _ power (Nat.pow_pos (by norm_num)) fiveSmall (by omega)
        (by omega) with
      ⟨right, rightPower, rightPos, isRight, rightValue⟩
    have rightIsTen : (right : ℚ) * 2 ^ rightPower = 10 ^ power := by
      rw [rightValue, zpow_natCast, Nat.cast_pow, ← mul_pow]
      norm_num
    have leftNormal : 2 ^ 52 ≤ left := by
      refine normal_of_one_le (canonical_of_unpacked isLeft).1 leftPos ?_
      rw [leftValue, zpow_zero, mul_one]
      exact_mod_cast pos
    dsimp only
    have inTable : power < Float.exactlyRepresentablePowersOfTen.size := Nat.lt_succ_of_le isFast.2
    rw [toFloat_toUInt64 pos isFast.1, exactlyRepresentablePowersOfTen_eq inTable]
    cases negative with
    | true =>
        have quotient := roundsTo_div isLeft isRight
        rw [leftValue, rightIsTen, zpow_zero, mul_one] at quotient
        rw [signedPower, if_pos rfl, if_pos rfl, zpow_neg, zpow_natCast, ← div_eq_mul_inv]
        exact quotient
    | false =>
        have product := roundsTo_mul isLeft isRight (.inl leftNormal)
        rw [leftValue, rightIsTen, zpow_zero, mul_one] at product
        rw [signedPower, if_neg Bool.false_ne_true, if_neg Bool.false_ne_true, zpow_natCast]
        exact product
  · have isPower : (if negative = true then Int.negOfNat power else Int.ofNat power) =
        signedPower negative power := by
      cases negative with
      | true => exact Int.negOfNat_eq
      | false => rfl
    dsimp only
    rw [isPower]
    exact roundsTo_packed_ofScientific pos _

end Scientific

section ToFloat

theorem magnitudeToFloat_of_zero (isZero : number.coefficient = 0) :
    number.magnitudeToFloat = packed (.zero .positive) := by
  rw [magnitudeToFloat, if_pos (.inl isZero)]
  rfl

theorem roundsTo_magnitudeToFloat (nonzero : number.coefficient ≠ 0) :
    RoundsTo .positive number.magnitude number.magnitudeToFloat := by
  have isPositive := magnitude_pos nonzero
  unfold magnitudeToFloat
  split
  · rename_i isSmall
    have tooSmall := isSmall.resolve_left nonzero
    refine .of_underflow isPositive (number.magnitude_lt.trans_le ?_)
    exact ten_zpow_le_of_nonpos (by norm_num) (by omega)
  split
  · rename_i tooLarge
    exact .of_overflow ((overflowBound_le (by omega)).trans (le_magnitude nonzero))
  · have isPower : signedPower (decide (number.exponent < 0)) number.exponent.natAbs =
        number.exponent := by
      unfold signedPower
      rcases lt_or_ge number.exponent 0 with negative | nonneg
      · rw [if_pos (decide_eq_true negative)]
        omega
      · rw [if_neg (by simpa using nonneg)]
        omega
    have rounds := roundsTo_ofScientific (Nat.pos_of_ne_zero nonzero)
      (decide (number.exponent < 0)) number.exponent.natAbs
    rw [isPower] at rounds
    exact rounds

theorem toFloat_of_zero (isZero : number.coefficient = 0) :
    number.toFloat = packed (.zero number.sign) := by
  rw [toFloat, magnitudeToFloat_of_zero isZero, sign]
  cases number.negative with
  | true => rfl
  | false => rfl

/-- A decimal number is read as the rounding of its exact value. -/
theorem roundsTo_toFloat (nonzero : number.coefficient ≠ 0) :
    RoundsTo number.sign number.magnitude number.toFloat := by
  have rounds := roundsTo_magnitudeToFloat nonzero
  rw [sign, toFloat]
  cases number.negative with
  | true => exact rounds.neg
  | false => exact rounds

/-- How a number is read depends on its sign and its value alone. -/
theorem toFloat_congr (sameSign : number.negative = other.negative)
    (sameMagnitude : number.magnitude = other.magnitude) : number.toFloat = other.toFloat := by
  have isSign : number.sign = other.sign := by rw [sign, sign, sameSign]
  by_cases isZero : number.coefficient = 0
  · have otherZero : other.coefficient = 0 := by
      rw [← magnitude_eq_zero_iff, ← sameMagnitude, magnitude_eq_zero_iff]
      exact isZero
    rw [toFloat_of_zero isZero, toFloat_of_zero otherZero, isSign]
  · have otherNonzero : other.coefficient ≠ 0 := by
      rw [ne_eq, ← magnitude_eq_zero_iff, ← sameMagnitude, magnitude_eq_zero_iff]
      exact isZero
    have rounds := roundsTo_toFloat isZero
    rw [isSign, sameMagnitude] at rounds
    exact rounds.unique (roundsTo_toFloat otherNonzero)

end ToFloat

end Metrology.Decimal

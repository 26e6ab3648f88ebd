import Metrology.Proofs.Decimal.Rounding

/-!
# Shortest decimals read back

The decimal that a finite number is printed as is read as the same number, bit by bit. On a grid of
seventeen digits the nearer neighbour of a number is closer to it than one in 2 ^ 54 parts, and what
is that close is rounded to the number. So the search for a neighbour that reads back succeeds on
the last grid at the latest.
-/

namespace Metrology.Decimal

open Binary64
open Float.Model
open Float.Model.UnpackedFloat (Sign)

variable {number : Float} {sign : Sign} {significand : ℕ} {exponent : ℤ} {pos : 0 < significand}

section Fraction

/-- The two fields that a fraction is read from are those of the encoding. -/
theorem exists_fields_of_toBits (number : Float) :
    ∃ fieldSign field mantissa, Fields fieldSign field mantissa (unpacked number) ∧
      number.toBits.toNat / 2 ^ 52 % 2 ^ 11 = field.toNat ∧
      number.toBits.toNat % 2 ^ 52 = mantissa.toNat := by
  rcases exists_fields_unpacked number with ⟨fieldSign, field, mantissa, fields, isBits⟩
  have fieldLt : field.toNat < 2 ^ 11 := field.isLt
  have mantissaLt : mantissa.toNat < 2 ^ 52 := mantissa.isLt
  have isNat : number.toBits.toNat =
      fieldSign.toBitVec.toNat * 2 ^ 63 + field.toNat * 2 ^ 52 + mantissa.toNat := by
    rw [← toNat_packComponents, ← isBits]
    rfl
  exact ⟨fieldSign, field, mantissa, fields, by omega, by omega⟩

/-- The fraction of a finite number, by its parts. -/
theorem fractionOf_of_finite (isParts : unpacked number = .finite sign significand exponent pos) :
    fractionOf number = (significand * 2 ^ exponent.toNat, 2 ^ (-exponent).toNat) := by
  rcases exists_fields_of_toBits number with ⟨_, field, mantissa, fields, isField, isMantissa⟩
  rw [isParts] at fields
  simp only [fractionOf, Nat.pow_eq]
  rw [isField, isMantissa]
  cases fields with
  | subnormal bottom isSignificand =>
      have isBottom : (0#11).toNat = 0 := rfl
      have isPower : ((Nat.max 0 1 : ℕ) : ℤ) - 1075 = -1074 := rfl
      rw [bottom, isBottom, if_pos rfl, isPower, isSignificand]
  | normal lower upper isSignificand isPower =>
      have notBottom : field.toNat ≠ 0 := by omega
      have isMax : Nat.max field.toNat 1 = field.toNat := max_eq_left lower
      rw [if_neg notBottom, isMax, ← isPower, isSignificand, add_comm mantissa.toNat]

theorem fractionOf_of_zero (isParts : unpacked number = .zero sign) :
    (fractionOf number).1 = 0 := by
  rcases exists_fields_of_toBits number with ⟨_, field, mantissa, fields, isField, isMantissa⟩
  rw [isParts] at fields
  simp only [fractionOf, Nat.pow_eq]
  rw [isField, isMantissa]
  cases fields with
  | zero bottom isZero =>
      have isBottom : (0#11).toNat = 0 := rfl
      have noDigits : (0#52).toNat = 0 := rfl
      rw [bottom, isBottom, if_pos rfl, isZero, noDigits, zero_mul]

/-- An integer power as a quotient of two natural powers, one of which is one. -/
theorem zpow_eq_div {base : ℕ} (basePos : 0 < base) (power : ℤ) :
    (base : ℚ) ^ power = (base ^ power.toNat : ℕ) / (base ^ (-power).toNat : ℕ) := by
  have baseNe : (base : ℚ) ≠ 0 := by exact_mod_cast basePos.ne'
  have split : power = (power.toNat : ℤ) - ((-power).toNat : ℤ) := by omega
  calc (base : ℚ) ^ power = base ^ ((power.toNat : ℤ) - ((-power).toNat : ℤ)) := by rw [← split]
    _ = (base ^ power.toNat : ℕ) / (base ^ (-power).toNat : ℕ) := by
        rw [zpow_sub₀ baseNe, zpow_natCast, zpow_natCast, Nat.cast_pow, Nat.cast_pow]

theorem div_fractionOf (isParts : unpacked number = .finite sign significand exponent pos) :
    ((fractionOf number).1 : ℚ) / (fractionOf number).2 = significand * 2 ^ exponent := by
  have isPower := zpow_eq_div two_pos exponent
  rw [fractionOf_of_finite isParts, Nat.cast_mul, mul_div_assoc, ← isPower]
  rfl

theorem div_scaleFraction (numerator denominator : ℕ) (power : ℤ) :
    ((scaleFraction numerator denominator power).1 : ℚ) /
        (scaleFraction numerator denominator power).2 =
      numerator / denominator * 10 ^ power := by
  have isPower := zpow_eq_div (show 0 < 10 by norm_num) power
  simp only [scaleFraction, Nat.pow_eq]
  rw [Nat.cast_mul, Nat.cast_mul, mul_div_mul_comm, ← isPower]
  rfl

theorem scaleFraction_pos {denominator : ℕ} (denominatorPos : 0 < denominator) (numerator : ℕ)
    (power : ℤ) : 0 < (scaleFraction numerator denominator power).2 :=
  Nat.mul_pos denominatorPos (Nat.pow_pos (by norm_num))

end Fraction

section Point

/-- The estimate that the binary logarithm gives is at most one too large. -/
theorem estimate_le {digits : ℤ} (atLeast : -1074 ≤ digits) (atMost : digits ≤ 1023) :
    (10 : ℚ) ^ ((digits * 30103).fdiv 100000 - 1) ≤ 2 ^ digits := by
  rw [Int.fdiv_eq_ediv_of_nonneg _ (by norm_num)]
  rcases le_total 0 digits with nonneg | nonpos
  · exact ten_zpow_le_of_nonneg nonneg (by omega)
  · exact ten_zpow_le_of_nonpos nonpos (by omega)

/-- A fraction whose denominator is a power of two is at least the power of two between the binary
logarithms. -/
theorem two_zpow_log2_le {numerator : ℕ} (numeratorPos : 0 < numerator) (digits : ℕ) :
    (2 : ℚ) ^ ((numerator.log2 : ℤ) - (2 ^ digits : ℕ).log2) ≤ numerator / (2 ^ digits : ℕ) := by
  rw [Nat.log2_two_pow, zpow_sub₀ (by norm_num), zpow_natCast, zpow_natCast, Nat.cast_pow]
  have atLeast : ((2 ^ numerator.log2 : ℕ) : ℚ) ≤ numerator := by
    exact_mod_cast Nat.log2_self_le numeratorPos.ne'
  rw [Nat.cast_pow] at atLeast
  exact div_le_div_of_nonneg_right atLeast (by positivity)

/-- What is a multiple of the unit after scaling is that multiple of the power of ten before. -/
theorem mul_ten_zpow_le {numerator denominator factor : ℕ} {power : ℤ}
    (denominatorPos : 0 < denominator)
    (above : factor * (scaleFraction numerator denominator (-power)).2 ≤
      (scaleFraction numerator denominator (-power)).1) :
    (factor : ℚ) * 10 ^ power ≤ numerator / denominator := by
  have unitPos : (0 : ℚ) < (scaleFraction numerator denominator (-power)).2 := by
    exact_mod_cast scaleFraction_pos denominatorPos numerator (-power)
  have atLeast : (factor : ℚ) ≤ (scaleFraction numerator denominator (-power)).1 /
      (scaleFraction numerator denominator (-power)).2 := by
    rw [le_div_iff₀ unitPos]
    exact_mod_cast above
  rw [div_scaleFraction, zpow_neg, ← div_eq_mul_inv, le_div_iff₀ (ten_zpow_pos power)] at atLeast
  exact atLeast

/-- The position of the decimal point of a fraction bounds the fraction from below. -/
theorem ten_zpow_pointOf_le {numerator digits : ℕ} (numeratorPos : 0 < numerator)
    (atLeast : -1074 ≤ (numerator.log2 : ℤ) - (2 ^ digits : ℕ).log2)
    (atMost : (numerator.log2 : ℤ) - (2 ^ digits : ℕ).log2 ≤ 1023) :
    (10 : ℚ) ^ (pointOf numerator (2 ^ digits) - 1) ≤ numerator / (2 ^ digits : ℕ) := by
  have denominatorPos : 0 < 2 ^ digits := Nat.pow_pos (by norm_num)
  have bottom := estimate_le atLeast atMost
  unfold pointOf
  dsimp only
  generalize (((numerator.log2 : ℤ) - (2 ^ digits : ℕ).log2) * 30103).fdiv 100000 = estimate
    at bottom ⊢
  split
  · rename_i isTenfold
    have above := mul_ten_zpow_le denominatorPos isTenfold
    rw [show estimate + 2 - 1 = 1 + estimate by ring, zpow_add₀ (by norm_num), zpow_one]
    exact above
  split
  · rename_i isUnit
    have above := @mul_ten_zpow_le numerator (2 ^ digits) 1 estimate denominatorPos (by omega)
    rw [show estimate + 1 - 1 = estimate by ring]
    rwa [Nat.cast_one, one_mul] at above
  · exact bottom.trans (two_zpow_log2_le numeratorPos digits)

theorem log2_mul_two_pow (pos : 0 < significand) (digits : ℕ) :
    (significand * 2 ^ digits).log2 = significand.log2 + digits := by
  have atLeast : 2 ^ significand.log2 ≤ significand := Nat.log2_self_le pos.ne'
  have below : significand < 2 ^ (significand.log2 + 1) := Nat.lt_log2_self
  rw [Nat.log2_eq_iff (by positivity)]
  constructor
  · rw [pow_add]
    exact Nat.mul_le_mul_right _ atLeast
  · rw [show significand.log2 + digits + 1 = significand.log2 + 1 + digits by ring,
      pow_add 2 (significand.log2 + 1)]
    exact Nat.mul_lt_mul_of_pos_right below (by positivity)

/-- The position of the decimal point that the digits of a finite number are counted from. -/
theorem ten_zpow_pointOf_fractionOf_le
    (isParts : unpacked number = .finite sign significand exponent pos) :
    (10 : ℚ) ^ (pointOf (fractionOf number).1 (fractionOf number).2 - 1) ≤
      significand * 2 ^ exponent := by
  have ⟨canonical, bounded⟩ := canonical_of_unpacked isParts
  have log2Le : significand.log2 ≤ 52 := by
    have := (Nat.log2_lt pos.ne').mpr canonical.lt
    omega
  have isLog2 := log2_mul_two_pow pos exponent.toNat
  have := canonical.le
  rw [← div_fractionOf isParts, fractionOf_of_finite isParts]
  apply ten_zpow_pointOf_le (by positivity)
  · rw [isLog2, Nat.log2_two_pow]
    omega
  · rw [isLog2, Nat.log2_two_pow]
    omega

end Point

section Grid

variable {decimal : Decimal} {tie : Tie} {power : ℤ}

/-- What is closer to a number than one in 2 ^ 54 parts of it is read as the number. -/
theorem toFloat_of_close (isParts : unpacked number = .finite sign significand exponent pos)
    (isSign : decimal.negative = signOf number) (nonzero : decimal.coefficient ≠ 0)
    (close : |decimal.magnitude - significand * 2 ^ exponent| <
      significand * 2 ^ exponent / 2 ^ 54) :
    decimal.toFloat = number := by
  have canonical := (canonical_of_unpacked isParts).1
  have sameSign : decimal.sign = sign := by
    rw [Decimal.sign, isSign, signOf_eq_isNegative, isParts]
    cases sign <;> rfl
  have rounds := roundsTo_toFloat nonzero
  rw [sameSign] at rounds
  refine rounds.unique ⟨_, .of_close canonical pos close, ?_⟩
  rw [← isParts, packed_unpacked]

theorem readsAs_iff : decimal.readsAs number = true ↔ decimal.toFloat = number := by
  rw [readsAs, beq_iff_eq]
  constructor
  · intro same
    exact eq_of_toBits_eq (congrArg UInt64.toBitVec same)
  · intro same
    rw [same]

/-- What the grid gives is read as the number and has its sign. -/
theorem toFloat_of_onGrid? (found : onGrid? tie number power = some decimal) :
    decimal.toFloat = number ∧ decimal.negative = signOf number := by
  unfold onGrid? at found
  dsimp only at found
  split at found
  · rename_i readsLower readsUpper
    rw [readsAs_iff] at readsLower readsUpper
    split at found
    · cases found
      exact ⟨readsLower, rfl⟩
    split at found
    · cases found
      exact ⟨readsUpper, rfl⟩
    split at found <;> cases found
    · exact ⟨readsLower, rfl⟩
    · exact ⟨readsUpper, rfl⟩
  · rename_i readsLower _
    cases found
    exact ⟨readsAs_iff.mp readsLower, rfl⟩
  · rename_i _ readsUpper
    cases found
    exact ⟨readsAs_iff.mp readsUpper, rfl⟩
  · cases found

/-- A number scaled to a grid, rounded down. -/
def floorOnGrid (number : Float) (power : ℤ) : ℕ :=
  let (scaled, unit) := scaleFraction (fractionOf number).1 (fractionOf number).2 power
  scaled / unit

/-- If one of the two neighbours reads back, then the grid gives a decimal. -/
theorem isSome_onGrid? (tie : Tie)
    (reads : (⟨signOf number, floorOnGrid number power, -power⟩ : Decimal).toFloat = number ∨
      (⟨signOf number, floorOnGrid number power + 1, -power⟩ : Decimal).toFloat = number) :
    (onGrid? tie number power).isSome = true := by
  rw [← readsAs_iff, ← readsAs_iff] at reads
  unfold onGrid?
  dsimp only
  split
  · split
    · rfl
    split
    · rfl
    split <;> rfl
  · rfl
  · rfl
  · rename_i notLower notUpper
    rcases reads with readsLower | readsUpper
    · exact absurd readsLower (by rw [floorOnGrid]; simpa using notLower)
    · exact absurd readsUpper (by rw [floorOnGrid]; simpa using notUpper)

theorem floorOnGrid_le (isParts : unpacked number = .finite sign significand exponent pos)
    (power : ℤ) :
    floorOnGrid number power ≤ (significand * 2 ^ exponent * 10 ^ power : ℚ) ∧
      (significand * 2 ^ exponent * 10 ^ power : ℚ) < floorOnGrid number power + 1 := by
  have unitPos : 0 < (scaleFraction (fractionOf number).1 (fractionOf number).2 power).2 := by
    refine scaleFraction_pos ?_ _ _
    rw [fractionOf_of_finite isParts]
    exact Nat.pow_pos two_pos
  have unitCastPos :
      (0 : ℚ) < (scaleFraction (fractionOf number).1 (fractionOf number).2 power).2 := by
    exact_mod_cast unitPos
  rw [← div_fractionOf isParts, ← div_scaleFraction, le_div_iff₀ unitCastPos,
    div_lt_iff₀ unitCastPos]
  constructor
  · exact_mod_cast Nat.div_mul_le_self _ _
  · rw [mul_comm]
    exact_mod_cast Nat.lt_mul_div_succ _ unitPos

variable {coefficient : ℕ}

/-- The nearest decimal on a grid of at least seventeen digits is read as the number. -/
theorem toFloat_of_nearest (isParts : unpacked number = .finite sign significand exponent pos)
    (fine : 10 ^ 16 ≤ (significand * 2 ^ exponent * 10 ^ power : ℚ))
    (near : |coefficient - (significand * 2 ^ exponent * 10 ^ power : ℚ)| ≤ 1 / 2) :
    (⟨signOf number, coefficient, -power⟩ : Decimal).toFloat = number := by
  have unitPos := ten_zpow_pos (-power)
  have isValue : (significand * 2 ^ exponent : ℚ) =
      significand * 2 ^ exponent * 10 ^ power * 10 ^ (-power) := by
    rw [mul_assoc, ← zpow_add₀ (by norm_num), add_neg_cancel, zpow_zero, mul_one]
  apply toFloat_of_close isParts rfl
  · rintro rfl
    have := (abs_le.mp near).1
    push_cast at this
    linarith
  · change |coefficient * 10 ^ (-power) - (significand * 2 ^ exponent : ℚ)| < _
    rw [isValue]
    generalize (significand * 2 ^ exponent * 10 ^ power : ℚ) = scaled at fine near
    rw [← sub_mul, abs_mul, abs_of_pos unitPos, mul_div_right_comm]
    refine mul_lt_mul_of_pos_right (near.trans_lt ?_) unitPos
    linarith

/-- On such a grid one of the two neighbours is the nearest decimal. -/
theorem isSome_onGrid?_of_fine (tie : Tie)
    (isParts : unpacked number = .finite sign significand exponent pos)
    (fine : 10 ^ 16 ≤ (significand * 2 ^ exponent * 10 ^ power : ℚ)) :
    (onGrid? tie number power).isSome = true := by
  have ⟨below, above⟩ := floorOnGrid_le isParts power
  apply isSome_onGrid?
  by_cases isLower :
      (significand * 2 ^ exponent * 10 ^ power : ℚ) ≤ floorOnGrid number power + 1 / 2
  · refine .inl (toFloat_of_nearest isParts fine ?_)
    rw [abs_le]
    constructor <;> linarith
  · refine .inr (toFloat_of_nearest isParts fine ?_)
    rw [abs_le]
    push_cast
    constructor <;> linarith

end Grid

section Shortest

theorem stripZeros_eq (negative : Bool) (coefficient : ℕ) (exponent : ℤ) :
    (stripZeros negative coefficient exponent).negative = negative ∧
      (stripZeros negative coefficient exponent).magnitude = coefficient * 10 ^ exponent := by
  fun_induction stripZeros negative coefficient exponent with
  | case1 coefficient exponent hasZero ih =>
      have isTenfold : coefficient = 10 * (coefficient / 10) := by omega
      refine ⟨ih.1, ih.2.trans ?_⟩
      rw [zpow_add₀ (by norm_num), zpow_one]
      conv_rhs => rw [isTenfold]
      push_cast
      ring
  | case2 => exact ⟨rfl, rfl⟩

variable (tie : Tie)

theorem shortest_of_zero (isParts : unpacked number = .zero sign) :
    shortest tie number = ⟨signOf number, 0, 0⟩ := by
  unfold shortest
  dsimp only
  rw [if_pos (fractionOf_of_zero isParts)]

/-- The search over the grids succeeds. -/
theorem exists_onGrid? (isParts : unpacked number = .finite sign significand exponent pos) :
    ∃ power found, onGrid? tie number power = some found ∧
      shortest tie number = stripZeros found.negative found.coefficient found.exponent := by
  have numeratorPos : (fractionOf number).1 ≠ 0 := by
    rw [fractionOf_of_finite isParts]
    positivity
  have fine := ten_zpow_pointOf_fractionOf_le isParts
  unfold shortest
  dsimp only
  rw [if_neg numeratorPos]
  generalize pointOf (fractionOf number).1 (fractionOf number).2 = point at fine ⊢
  have isSome : ((List.range 17).findSome? fun (digits : ℕ) =>
      onGrid? tie number (digits + 1 - point)).isSome = true := by
    rw [List.findSome?_isSome_iff]
    refine ⟨16, by decide, isSome_onGrid?_of_fine tie isParts ?_⟩
    calc (10 : ℚ) ^ 16 = 10 ^ (point - 1) * 10 ^ (((16 : ℕ) : ℤ) + 1 - point) := by
          rw [← zpow_add₀ (by norm_num), show point - 1 + (((16 : ℕ) : ℤ) + 1 - point) = 16 by
            push_cast; ring]
          rfl
      _ ≤ significand * 2 ^ exponent * 10 ^ (((16 : ℕ) : ℤ) + 1 - point) :=
          mul_le_mul_of_nonneg_right fine (ten_zpow_pos _).le
  rcases Option.isSome_iff_exists.mp isSome with ⟨found, isFound⟩
  rcases List.exists_of_findSome?_eq_some isFound with ⟨digits, _, onGrid⟩
  rw [isFound]
  exact ⟨_, found, onGrid, rfl⟩

/-- The decimal that a finite number is printed as has the sign of the number and is read as the
number, bit by bit. -/
theorem shortest_spec (isFinite : number.isFinite = true) :
    (shortest tie number).negative = signOf number ∧ (shortest tie number).toFloat = number := by
  rcases zero_or_finite isFinite with ⟨sign, isParts⟩ | ⟨sign, significand, exponent, pos, isParts⟩
  · rw [shortest_of_zero tie isParts]
    refine ⟨rfl, ?_⟩
    rw [toFloat_of_zero rfl, Decimal.sign, signOf_eq_isNegative, ← packed_unpacked number, isParts,
      unpacked_packed (.zero sign)]
    cases sign <;> rfl
  · rcases exists_onGrid? tie isParts with ⟨power, found, onGrid, isShortest⟩
    rcases toFloat_of_onGrid? onGrid with ⟨reads, isSign⟩
    rcases stripZeros_eq found.negative found.coefficient found.exponent with
      ⟨sameSign, sameMagnitude⟩
    rw [isShortest]
    exact ⟨sameSign.trans isSign, (toFloat_congr sameSign sameMagnitude).trans reads⟩

end Shortest

end Metrology.Decimal

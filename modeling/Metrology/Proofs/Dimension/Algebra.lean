import Metrology.Proofs.UnitSystem.Product

/-!
# The algebra of dimensions

Since products, quotients and powers of dimensions have the exact integer exponents or do not exist
at all, the laws of integer vectors hold of them wherever the operations involved exist: a quotient
takes back a product, the power `-1` is an inverse, and powers of powers multiply. The range of the
exponents is not symmetric, so the least exponent is the one that has no inverse. Units follow the
same laws, since their scales have no part in any of this.
-/

namespace Metrology

namespace Dimension

variable {left right dimension inverse product result : Dimension} {first second : Int32}

/-- Division takes back a multiplication. -/
theorem div?_of_mul? (isProduct : left.mul? right = some product) :
    product.div? right = some left := by
  rw [mul?_eq_some_iff] at isProduct
  rw [div?_eq_some_iff]
  intro base
  rw [isProduct, Int.add_sub_cancel]

theorem toInt_neg_one : (-1 : Int32).toInt = -1 :=
  rfl

theorem toInts_of_pow?_neg_one (isInverse : dimension.pow? (-1) = some inverse) (base : BaseUnit) :
    inverse.toInts base = -dimension.toInts base := by
  rw [pow?_eq_some_iff.mp isInverse, toInt_neg_one, Int.mul_neg, Int.mul_one]

/-- Only a dimension with the least exponent has no inverse. -/
theorem pow?_neg_one_eq_none_iff :
    dimension.pow? (-1) = none ↔ ∃ base, dimension.toInts base = -0x80000000 := by
  rw [pow?, ofInts?_eq_none_iff]
  refine exists_congr fun base => ?_
  have inRange := dimension.inRange_toInts base
  rw [toInt_neg_one]
  simp only [toInts, InRange] at inRange ⊢
  omega

/-- A dimension times its inverse is that of pure numbers. -/
theorem mul?_of_pow?_neg_one (isInverse : dimension.pow? (-1) = some inverse) :
    dimension.mul? inverse = some dimensionless := by
  rw [mul?_eq_some_iff]
  intro base
  rw [toInts_of_pow?_neg_one isInverse, Int.add_right_neg]
  cases base <;> rfl

/-- Division is multiplication by the inverse, where there is one. -/
theorem div?_eq_mul?_of_pow?_neg_one (isInverse : right.pow? (-1) = some inverse) :
    left.div? right = left.mul? inverse := by
  refine congrArg ofInts? (funext fun base => ?_)
  have isNegative := toInts_of_pow?_neg_one isInverse base
  rw [toInts, toInts] at isNegative
  rw [isNegative, Int.sub_eq_add_neg]

theorem toInt_mul_of_inRange (inRange : InRange (first.toInt * second.toInt)) :
    (first * second).toInt = first.toInt * second.toInt := by
  rw [InRange] at inRange
  rw [Int32.toInt_mul, Int.bmod_eq_of_le] <;> omega

/-- A power of a power is the power of the product, where that is a power at all. -/
theorem pow?_pow? (inRange : InRange (first.toInt * second.toInt))
    (isPower : dimension.pow? first = some result) :
    result.pow? second = dimension.pow? (first * second) := by
  refine congrArg ofInts? (funext fun base => ?_)
  have isExact := pow?_eq_some_iff.mp isPower base
  rw [toInts, toInts] at isExact
  rw [isExact, toInt_mul_of_inRange inRange, Int.mul_assoc]

theorem inRange_mul_of_next {exponent count : Int} (oneLe : 1 ≤ count)
    (inRange : InRange (exponent * (count + 1))) : InRange (exponent * count) := by
  rw [InRange, Int.mul_add, Int.mul_one] at inRange
  rw [InRange]
  rcases Int.le_total 0 exponent with nonneg | nonpos
  · have := Int.mul_nonneg nonneg (by omega : 0 ≤ count)
    omega
  · have := Int.mul_nonneg (by omega : 0 ≤ -exponent) (by omega : 0 ≤ count)
    rw [Int.neg_mul] at this
    omega

/-- A positive power times the dimension is the next power. There is none where already the first
of them leaves the range. -/
theorem pow?_bind_mul? (oneLe : 1 ≤ first.toInt) (isNext : second.toInt = first.toInt + 1) :
    ((dimension.pow? first).bind fun power => power.mul? dimension) = dimension.pow? second := by
  cases isPower : dimension.pow? first with
  | none =>
      rcases ofInts?_eq_none_iff.mp isPower with ⟨base, outside⟩
      symm
      refine ofInts?_eq_none_iff.mpr ⟨base, fun inRange => outside ?_⟩
      rw [isNext] at inRange
      exact inRange_mul_of_next oneLe inRange
  | some power =>
      refine congrArg ofInts? (funext fun base => ?_)
      have isExact := pow?_eq_some_iff.mp isPower base
      rw [toInts, toInts] at isExact
      rw [isExact, isNext, Int.mul_add, Int.mul_one]

theorem isDimensionless_iff :
    dimension.isDimensionless = true ↔ dimension = dimensionless := by
  simp only [isDimensionless, List.all_eq_true, beq_iff_eq]
  constructor
  · intro allZero
    refine ext_exponent fun base => ?_
    rw [allZero base base.mem_all]
    cases base <;> rfl
  · rintro rfl base _
    cases base <;> rfl

end Dimension

namespace UnitOfMeasure

variable {left right unit inverse product result : UnitOfMeasure} {first second : Int32}
  {exponents : BaseUnit → Int} {operation : Option UnitOfMeasure}

/-- Whether an operation on units gives a unit with given integer exponents just if all of them are
in the range, and reports that they are not otherwise. -/
structure IsExact (exponents : BaseUnit → Int) (operation : Option UnitOfMeasure) : Prop where
  inRange : (∀ base, Dimension.InRange (exponents base)) →
    ∃ unit, UnitError.ofRange? operation = .ok unit ∧
      ∀ base, unit.dimension.toInts base = exponents base
  outOfRange : ∀ base, ¬Dimension.InRange (exponents base) →
    UnitError.ofRange? operation = .error .exponentOverflow

theorem isExact_of_ofInts?
    (isDimension : operation.map dimension = Dimension.ofInts? exponents) :
    IsExact exponents operation where
  inRange := by
    intro inRange
    rcases Dimension.exists_ofInts? inRange with ⟨dimension, isInts⟩
    rw [isInts, Option.map_eq_some_iff] at isDimension
    rcases isDimension with ⟨unit, rfl, rfl⟩
    exact ⟨unit, rfl, Dimension.ofInts?_eq_some_iff.mp isInts⟩
  outOfRange := by
    intro base outside
    rw [Dimension.ofInts?_eq_none_iff.mpr ⟨base, outside⟩, Option.map_eq_none_iff] at isDimension
    rw [isDimension]
    rfl

theorem div?_dimension (left right : UnitOfMeasure) :
    (left.div? right).map dimension = left.dimension.div? right.dimension := by
  simp only [div?, Option.map_map]
  exact Option.map_id'

theorem pow?_dimension (unit : UnitOfMeasure) (power : Int32) :
    (unit.pow? power).map dimension = unit.dimension.pow? power := by
  simp only [pow?, Option.map_map]
  exact Option.map_id'

/-- An operation on units has a result just if the one on their dimensions has. -/
theorem exists_of_dimension {dimension : Dimension}
    (isDimension : operation.map UnitOfMeasure.dimension = some dimension) :
    ∃ unit, operation = some unit ∧ unit.dimension = dimension :=
  Option.map_eq_some_iff.mp isDimension

theorem dimension_eq_some (isResult : operation = some result) :
    operation.map dimension = some result.dimension := by
  rw [isResult, Option.map_some]

/-- The algebra of units is exact and never wraps around. Products, quotients and powers have the
exact exponents where all of them are in the range, and report an overflow where one is not;
neither depends on a scale. So the laws of integer vectors hold: a quotient takes back a product,
the inverse fails just for the least exponent and is an inverse otherwise, a quotient is a product
with the inverse, and powers of powers multiply. -/
theorem algebra_exact (left right : UnitOfMeasure) (first second : Int32) :
    (IsExact (fun base => left.dimension.toInts base + right.dimension.toInts base)
        (left.mul? right) ∧
      IsExact (fun base => left.dimension.toInts base - right.dimension.toInts base)
        (left.div? right) ∧
      IsExact (fun base => left.dimension.toInts base * first.toInt) (left.pow? first)) ∧
    (∀ otherLeft otherRight : UnitOfMeasure, otherLeft.dimension = left.dimension →
      otherRight.dimension = right.dimension →
      (otherLeft.mul? otherRight).map dimension = (left.mul? right).map dimension ∧
        (otherLeft.div? otherRight).map dimension = (left.div? right).map dimension ∧
        (otherLeft.pow? first).map dimension = (left.pow? first).map dimension) ∧
    (∀ product, left.mul? right = some product →
      ∃ quotient, product.div? right = some quotient ∧ quotient.dimension = left.dimension) ∧
    (left.pow? (-1) = none ↔ ∃ base, left.dimension.exponent base = Int32.minValue) ∧
    (∀ inverse, left.pow? (-1) = some inverse →
      ∃ product, left.mul? inverse = some product ∧ product.dimension.isDimensionless = true) ∧
    (∀ inverse, right.pow? (-1) = some inverse →
      (left.div? right).map dimension = (left.mul? inverse).map dimension) ∧
    (Dimension.InRange (first.toInt * second.toInt) →
      ∀ power, left.pow? first = some power →
        (power.pow? second).map dimension = (left.pow? (first * second)).map dimension) := by
  refine ⟨⟨?_, ?_, ?_⟩, ?_, ?_, ?_, ?_, ?_, ?_⟩
  · exact isExact_of_ofInts? (left.mul?_dimension right)
  · exact isExact_of_ofInts? (left.div?_dimension right)
  · exact isExact_of_ofInts? (left.pow?_dimension first)
  · intro otherLeft otherRight sameLeft sameRight
    simp only [mul?_dimension, div?_dimension, pow?_dimension, sameLeft, sameRight, and_self]
  · intro product isProduct
    have ofDimensions := dimension_eq_some isProduct
    rw [mul?_dimension] at ofDimensions
    apply exists_of_dimension
    rw [div?_dimension, Dimension.div?_of_mul? ofDimensions]
  · rw [← Option.map_eq_none_iff (f := dimension), pow?_dimension,
      Dimension.pow?_neg_one_eq_none_iff]
    refine exists_congr fun base => ?_
    rw [← Int32.toInt_inj]
    rfl
  · intro inverse isInverse
    have ofDimensions := dimension_eq_some isInverse
    rw [pow?_dimension] at ofDimensions
    have isProduct := left.mul?_dimension inverse
    rw [Dimension.mul?_of_pow?_neg_one ofDimensions] at isProduct
    rcases exists_of_dimension isProduct with ⟨product, gives, isDimensionless⟩
    exact ⟨product, gives, Dimension.isDimensionless_iff.mpr isDimensionless⟩
  · intro inverse isInverse
    have ofDimensions := dimension_eq_some isInverse
    rw [pow?_dimension] at ofDimensions
    rw [div?_dimension, mul?_dimension, Dimension.div?_eq_mul?_of_pow?_neg_one ofDimensions]
  · intro inRange power isPower
    have ofDimensions := dimension_eq_some isPower
    rw [pow?_dimension] at ofDimensions
    rw [pow?_dimension, pow?_dimension, Dimension.pow?_pow? inRange ofDimensions]

end UnitOfMeasure

end Metrology

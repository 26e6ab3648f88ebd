import Metrology.Dimension.Basic

/-!
# Exact exponents

Products, quotients and powers of dimensions have the exact integer exponents or no result. Every
later argument about exponents is one about integers, by way of the equivalences of this file.
-/

namespace Metrology

instance (property : BaseUnit → Prop) [DecidablePred property] :
    Decidable (∀ base, property base) :=
  decidable_of_iff (∀ base ∈ BaseUnit.all, property base)
    ⟨fun holds base => holds base base.mem_all, fun holds base _ => holds base⟩

namespace Dimension

def toInts (dimension : Dimension) (base : BaseUnit) : Int :=
  (dimension.exponent base).toInt

theorem inRange_toInts (dimension : Dimension) (base : BaseUnit) :
    InRange (dimension.toInts base) :=
  ⟨(dimension.exponent base).le_toInt, (dimension.exponent base).toInt_lt⟩

theorem ext_toInt {left right : Dimension}
    (agree : ∀ base, left.toInts base = right.toInts base) : left = right :=
  ext_exponent fun base => Int32.toInt_inj.mp (agree base)

theorem all_inRange_iff {exponents : BaseUnit → Int} :
    (BaseUnit.all.all fun base => InRange (exponents base)) = true ↔
      ∀ base, InRange (exponents base) := by
  simp only [List.all_eq_true, decide_eq_true_eq]
  exact ⟨fun inRange base => inRange base base.mem_all, fun inRange base _ => inRange base⟩

/-- The dimension with given integer exponents is the one that has them. -/
theorem ofInts?_eq_some_iff {exponents : BaseUnit → Int} {dimension : Dimension} :
    ofInts? exponents = some dimension ↔ ∀ base, dimension.toInts base = exponents base := by
  unfold ofInts?
  constructor
  · intro isSome
    split at isSome
    · rename_i inRange
      rw [all_inRange_iff] at inRange
      simp only [Option.some.injEq] at isSome
      subst isSome
      intro base
      rw [toInts, exponent_ofExponents]
      exact Int32.toInt_ofInt_of_le (inRange base).1 (inRange base).2
    · cases isSome
  · intro isExact
    have inRange : ∀ base, InRange (exponents base) :=
      fun base => isExact base ▸ inRange_toInts dimension base
    rw [if_pos (all_inRange_iff.mpr inRange), Option.some.injEq]
    apply ext_exponent
    intro base
    rw [exponent_ofExponents, ← isExact base, toInts, Int32.ofInt_toInt]

/-- There is no dimension with given integer exponents just if one of them is out of range. -/
theorem ofInts?_eq_none_iff {exponents : BaseUnit → Int} :
    ofInts? exponents = none ↔ ∃ base, ¬InRange (exponents base) := by
  rw [ofInts?, ite_eq_right_iff]
  simp only [reduceCtorEq, imp_false, all_inRange_iff, Classical.not_forall]

theorem exists_ofInts? {exponents : BaseUnit → Int} (inRange : ∀ base, InRange (exponents base)) :
    ∃ dimension, ofInts? exponents = some dimension := by
  rw [← Option.isSome_iff_exists, ← Option.ne_none_iff_isSome]
  intro isNone
  rcases ofInts?_eq_none_iff.mp isNone with ⟨base, outside⟩
  exact outside (inRange base)

theorem mul?_eq_some_iff {left right product : Dimension} :
    left.mul? right = some product ↔
      ∀ base, product.toInts base = left.toInts base + right.toInts base :=
  ofInts?_eq_some_iff

theorem div?_eq_some_iff {left right quotient : Dimension} :
    left.div? right = some quotient ↔
      ∀ base, quotient.toInts base = left.toInts base - right.toInts base :=
  ofInts?_eq_some_iff

theorem pow?_eq_some_iff {dimension result : Dimension} {power : Int32} :
    dimension.pow? power = some result ↔
      ∀ base, result.toInts base = dimension.toInts base * power.toInt :=
  ofInts?_eq_some_iff

theorem toInts_ofBase (base other : BaseUnit) :
    (ofBase base).toInts other = if other = base then 1 else 0 := by
  rw [toInts, ofBase, exponent_ofExponents]
  split <;> rfl

end Dimension

end Metrology

import Mathlib.Algebra.Ring.Int.Defs
import Metrology.Proofs.Dimension.Exact
import Metrology.UnitSystem.Literal

/-!
# Products of terms

A run of terms is multiplied onto a unit one term after the other. The exponents of the product are
the exact sums, and there is a product just if neither the exponents of a term nor a sum on the way
leaves the 32-bit range. Scales have no part in this.
-/

namespace Metrology

/-- What is computed in two parts succeeds just if both parts do. -/
theorem bind_eq_ok {ε α β : Type} {first : Except ε α} {next : α → Except ε β} {value : β} :
    (first >>= next) = .ok value ↔ ∃ middle, first = .ok middle ∧ next middle = .ok value := by
  cases first <;> simp [bind, Except.bind]

/-- What is computed to hold of a result shows that there is one. -/
theorem exists_ok_of_any {ε α : Type} {computed : Except ε α} {property : α → Bool}
    (any : computed.toOption.any property = true) :
    ∃ value, computed = .ok value ∧ property value = true := by
  cases computed with
  | error _ => cases any
  | ok value => exact ⟨value, rfl, any⟩

/-- The exponent of a base unit in a term that is raised to its exponent times a sign. -/
def Term.exponentOf (term : Term) (sign : Int32) (base : BaseUnit) : Int :=
  term.unit.unit.dimension.toInts base * (term.exponent * sign).toInt

theorem Term.unitToThe?_dimension (term : Term) (sign : Int32) :
    (term.unitToThe? sign).map UnitOfMeasure.dimension =
      Dimension.ofInts? (term.exponentOf sign) := by
  simp only [unitToThe?, UnitOfMeasure.pow?, Option.map_map]
  exact Option.map_id'

theorem UnitOfMeasure.mul?_dimension (left right : UnitOfMeasure) :
    (left.mul? right).map UnitOfMeasure.dimension = left.dimension.mul? right.dimension := by
  simp only [mul?, Option.map_map]
  exact Option.map_id'

namespace UnitSystem

/-- Whether no exponent leaves the range while the terms are multiplied, one after the other, onto a
unit with given exponents. -/
def ProductInRange (sign : Int32) : (BaseUnit → Int) → List Term → Prop
  | _, [] => True
  | exponents, term :: terms =>
      (∀ base, Dimension.InRange (term.exponentOf sign base)) ∧
        (∀ base, Dimension.InRange (exponents base + term.exponentOf sign base)) ∧
        ProductInRange sign (fun base => exponents base + term.exponentOf sign base) terms

variable {sign : Int32} {unit result : UnitOfMeasure} {term : Term} {terms : List Term}

theorem ofRange?_bind_eq_ok {α β : Type} {option : Option α} {next : α → Except UnitError β}
    {value : β} :
    (UnitError.ofRange? option >>= next) = .ok value ↔
      ∃ middle, option = some middle ∧ next middle = .ok value := by
  cases option <;> simp [UnitError.ofRange?, bind, Except.bind]

theorem ofRange?_bind_eq_error {α β : Type} {option : Option α} {next : α → Except UnitError β}
    {error : UnitError} :
    (UnitError.ofRange? option >>= next) = .error error ↔
      option = none ∧ error = .exponentOverflow ∨
        ∃ middle, option = some middle ∧ next middle = .error error := by
  cases option <;> simp [UnitError.ofRange?, bind, Except.bind, eq_comm]

theorem multiplyTerms_cons_eq_ok :
    multiplyTerms sign unit (term :: terms) = .ok result ↔
      ∃ factor, term.unitToThe? sign = some factor ∧
        ∃ product, unit.mul? factor = some product ∧
          multiplyTerms sign product terms = .ok result := by
  rw [multiplyTerms, ofRange?_bind_eq_ok]
  exact exists_congr fun factor => and_congr_right fun _ => ofRange?_bind_eq_ok

theorem toInts_of_unitToThe? {factor : UnitOfMeasure}
    (isFactor : term.unitToThe? sign = some factor) (base : BaseUnit) :
    factor.dimension.toInts base = term.exponentOf sign base := by
  have isDimension := term.unitToThe?_dimension sign
  rw [isFactor, Option.map_some] at isDimension
  exact Dimension.ofInts?_eq_some_iff.mp isDimension.symm base

theorem toInts_of_mul? {factor product : UnitOfMeasure}
    (isProduct : unit.mul? factor = some product) (base : BaseUnit) :
    product.dimension.toInts base =
      unit.dimension.toInts base + factor.dimension.toInts base := by
  have isDimension := unit.mul?_dimension factor
  rw [isProduct, Option.map_some] at isDimension
  exact Dimension.mul?_eq_some_iff.mp isDimension.symm base

/-- The exponents of a product are the exact sums. -/
theorem toInts_of_multiplyTerms (isProduct : multiplyTerms sign unit terms = .ok result)
    (base : BaseUnit) :
    result.dimension.toInts base =
      unit.dimension.toInts base +
        (terms.map fun term => term.exponentOf sign base).sum := by
  induction terms generalizing unit with
  | nil =>
      simp only [multiplyTerms, Except.ok.injEq] at isProduct
      simp [isProduct]
  | cons term terms ih =>
      rcases multiplyTerms_cons_eq_ok.mp isProduct with
        ⟨factor, isFactor, product, isStep, isRest⟩
      rw [ih isRest, toInts_of_mul? isStep, toInts_of_unitToThe? isFactor]
      simp only [List.map_cons, List.sum_cons]
      omega

theorem exists_unitToThe? (inRange : ∀ base, Dimension.InRange (term.exponentOf sign base)) :
    ∃ factor, term.unitToThe? sign = some factor := by
  rcases Dimension.exists_ofInts? inRange with ⟨dimension, isDimension⟩
  rw [← term.unitToThe?_dimension, Option.map_eq_some_iff] at isDimension
  rcases isDimension with ⟨factor, isFactor, _⟩
  exact ⟨factor, isFactor⟩

theorem exists_mul? {factor : UnitOfMeasure}
    (inRange : ∀ base, Dimension.InRange
      (unit.dimension.toInts base + factor.dimension.toInts base)) :
    ∃ product, unit.mul? factor = some product := by
  rcases Dimension.exists_ofInts? inRange with ⟨dimension, isDimension⟩
  change unit.dimension.mul? factor.dimension = some dimension at isDimension
  rw [← unit.mul?_dimension, Option.map_eq_some_iff] at isDimension
  rcases isDimension with ⟨product, isProduct, _⟩
  exact ⟨product, isProduct⟩

/-- There is a product if no exponent leaves the range. -/
theorem exists_multiplyTerms
    (inRange : ProductInRange sign unit.dimension.toInts terms) :
    ∃ result, multiplyTerms sign unit terms = .ok result := by
  induction terms generalizing unit with
  | nil => exact ⟨unit, rfl⟩
  | cons term terms ih =>
      rcases inRange with ⟨factorInRange, productInRange, restInRange⟩
      rcases exists_unitToThe? factorInRange with ⟨factor, isFactor⟩
      simp only [← toInts_of_unitToThe? isFactor] at productInRange restInRange
      rcases exists_mul? productInRange with ⟨product, isProduct⟩
      simp only [← toInts_of_mul? isProduct] at restInRange
      rcases ih restInRange with ⟨result, isRest⟩
      exact ⟨result, multiplyTerms_cons_eq_ok.mpr ⟨factor, isFactor, product, isProduct, isRest⟩⟩

/-- No exponent leaves the range where there is a product. -/
theorem productInRange_of_multiplyTerms (isProduct : multiplyTerms sign unit terms = .ok result) :
    ProductInRange sign unit.dimension.toInts terms := by
  induction terms generalizing unit with
  | nil => trivial
  | cons term terms ih =>
      rcases multiplyTerms_cons_eq_ok.mp isProduct with
        ⟨factor, isFactor, product, isStep, isRest⟩
      have restInRange := ih isRest
      simp only [ProductInRange, ← toInts_of_unitToThe? isFactor, ← toInts_of_mul? isStep]
      exact ⟨factor.dimension.inRange_toInts, product.dimension.inRange_toInts, restInRange⟩

theorem eq_exponentOverflow_of_multiplyTerms {error : UnitError}
    (fails : multiplyTerms sign unit terms = .error error) : error = .exponentOverflow := by
  induction terms generalizing unit with
  | nil => cases fails
  | cons term terms ih =>
      rw [multiplyTerms] at fails
      rcases ofRange?_bind_eq_error.mp fails with ⟨_, same⟩ | ⟨factor, _, failsLater⟩
      · exact same
      · rcases ofRange?_bind_eq_error.mp failsLater with ⟨_, same⟩ | ⟨product, _, failsRest⟩
        · exact same
        · exact ih failsRest

/-- There is a product and no exponent leaves the range, or the range is what fails. -/
theorem multiplyTerms_cases (sign : Int32) (unit : UnitOfMeasure) (terms : List Term) :
    (∃ result, multiplyTerms sign unit terms = .ok result ∧
        ProductInRange sign unit.dimension.toInts terms) ∨
      multiplyTerms sign unit terms = .error .exponentOverflow ∧
        ¬ProductInRange sign unit.dimension.toInts terms := by
  cases product : multiplyTerms sign unit terms with
  | ok result => exact .inl ⟨result, rfl, productInRange_of_multiplyTerms product⟩
  | error error =>
      right
      rw [eq_exponentOverflow_of_multiplyTerms product]
      refine ⟨rfl, fun inRange => ?_⟩
      rcases exists_multiplyTerms inRange with ⟨result, isProduct⟩
      rw [isProduct] at product
      cases product

end UnitSystem

end Metrology

import Metrology.Proofs.UnitSystem.Product

/-!
# Scales of products of terms

The scale of a product is the product of the scales of the terms, formed from left to right and
rounded after every step. Exponents have no part in this.
-/

namespace Metrology

/-- The scale of a term that is raised to its exponent times a sign. -/
def Term.scaleOf (term : Term) (sign : Int32) : Float :=
  Scalar.power (term.unit.unit.scale * Scalar.power 10 term.prefixPower.toInt)
    (term.exponent * sign).toInt

/-- A scale times those of the terms of a run, one after the other. -/
def scaleProduct (sign : Int32) (scale : Float) (terms : List Term) : Float :=
  terms.foldl (fun product term => product * term.scaleOf sign) scale

namespace UnitSystem

variable {sign : Int32} {unit result : UnitOfMeasure} {term : Term} {terms : List Term}

theorem scale_of_unitToThe? {factor : UnitOfMeasure}
    (isFactor : term.unitToThe? sign = some factor) : factor.scale = term.scaleOf sign := by
  simp only [Term.unitToThe?, UnitOfMeasure.pow?, Option.map_eq_some_iff] at isFactor
  rcases isFactor with ⟨dimension, _, rfl⟩
  rfl

theorem scale_of_mul? {factor product : UnitOfMeasure}
    (isProduct : unit.mul? factor = some product) :
    product.scale = unit.scale * factor.scale := by
  simp only [UnitOfMeasure.mul?, Option.map_eq_some_iff] at isProduct
  rcases isProduct with ⟨dimension, _, rfl⟩
  rfl

theorem scale_of_multiplyTerms (isProduct : multiplyTerms sign unit terms = .ok result) :
    result.scale = scaleProduct sign unit.scale terms := by
  induction terms generalizing unit with
  | nil =>
      simp only [multiplyTerms, Except.ok.injEq] at isProduct
      rw [isProduct]
      rfl
  | cons term terms ih =>
      rcases multiplyTerms_cons_eq_ok.mp isProduct with
        ⟨factor, isFactor, product, isStep, isRest⟩
      rw [ih isRest, scale_of_mul? isStep, scale_of_unitToThe? isFactor]
      rfl

end UnitSystem

end Metrology

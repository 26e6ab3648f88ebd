import Mathlib.Data.List.Forall2
import Metrology.Proofs.Segmentation.Optimality
import Metrology.Proofs.UnitSystem.Product

/-!
# The grammar of unit literals

A unit literal is made of groups with a slash between them, and a group is `1` or a run of written
terms. This file says what groups mean in unbounded integers: they stand for the factors of their
terms, in their order, and none of these factors or of their sums from the left may leave the range.
Where groups mean nothing, a first one of them fails, for it cannot be read or leaves the range.
-/

namespace Metrology

namespace Segmentation

variable {system : UnitSystem} {group : List Char} {cut : List (WrittenTerm system)}

/-- The exponent of a base unit in a written term. -/
def WrittenTerm.factor (written : WrittenTerm system) (base : BaseUnit) : Int :=
  written.unit.unit.dimension.toInts base * written.exponent.toInt

/-- The terms that a group of a literal stands for. -/
inductive StandsFor (system : UnitSystem) : List Char → List (WrittenTerm system) → Prop where
  | one : StandsFor system ['1'] []
  | run {group : List Char} {cut : List (WrittenTerm system)} (nonempty : group ≠ [])
      (notOne : group ≠ ['1']) (best : IsBestCut system group cut) : StandsFor system group cut

/-- Whether a group has no meaning: it is empty, or it is neither `1` nor a sequence of terms. -/
def Unreadable (system : UnitSystem) (group : List Char) : Prop :=
  group = [] ∨ group ≠ ['1'] ∧ ∀ cut, ¬IsCut system group cut

/-- The exponents in the terms of the first group, and then the negated ones of the others. -/
def factors : List (List (WrittenTerm system)) → List (BaseUnit → Int)
  | [] => []
  | numerator :: denominators =>
      numerator.map WrittenTerm.factor ++
        denominators.flatten.map fun written base => -written.factor base

end Segmentation

/-- Whether factors and their sums from the left are all in range. -/
structure Fits (factors : List (BaseUnit → Int)) : Prop where
  each : ∀ factor ∈ factors, ∀ base, Dimension.InRange (factor base)
  sums : ∀ earlier, earlier <+: factors → ∀ base,
    Dimension.InRange (earlier.map (· base)).sum

namespace Fits

variable {earlier factors : List (BaseUnit → Int)} {factor : BaseUnit → Int}

theorem nil : Fits [] where
  each := by simp
  sums := by
    intro earlier isPrefix base
    rw [List.prefix_nil.mp isPrefix]
    change Dimension.InRange 0
    decide

theorem of_isPrefix (fits : Fits factors) (isPrefix : earlier <+: factors) : Fits earlier where
  each := fun factor member => fits.each factor (isPrefix.subset member)
  sums := fun first isFirst => fits.sums first (isFirst.trans isPrefix)

theorem concat_iff :
    Fits (earlier ++ [factor]) ↔
      Fits earlier ∧ (∀ base, Dimension.InRange (factor base)) ∧
        ∀ base, Dimension.InRange ((earlier.map (· base)).sum + factor base) := by
  constructor
  · intro fits
    refine ⟨fits.of_isPrefix (List.prefix_append _ _), fits.each factor (by simp), fun base => ?_⟩
    simpa using fits.sums _ (List.prefix_refl _) base
  · rintro ⟨fits, inRange, sumInRange⟩
    constructor
    · intro other member
      rcases List.mem_append.mp member with inEarlier | isLast
      · exact fits.each other inEarlier
      · rw [List.mem_singleton.mp isLast]
        exact inRange
    · intro first isFirst base
      rcases List.prefix_concat_iff.mp isFirst with rfl | isShorter
      · simpa using sumInRange base
      · exact fits.sums first isShorter base

/-- Factors that are added to others fit just if no exponent leaves the range on the way. -/
theorem append_iff {sign : Int32} {terms : List Term} (fits : Fits earlier) :
    Fits (earlier ++ terms.map fun term => term.exponentOf sign) ↔
      UnitSystem.ProductInRange sign (fun base => (earlier.map (· base)).sum) terms := by
  induction terms generalizing earlier with
  | nil => simpa [UnitSystem.ProductInRange] using fits
  | cons term terms ih =>
      rw [List.map_cons, List.append_cons, UnitSystem.ProductInRange, ← and_assoc]
      by_cases step : Fits (earlier ++ [term.exponentOf sign])
      · rw [ih step, and_iff_right (concat_iff.mp step).2]
        simp
      · -- Where one step does not fit, neither side holds, whatever follows.
        constructor
        · intro all
          exact False.elim (step (all.of_isPrefix (List.prefix_append _ _)))
        · intro inRange
          exact False.elim (step (concat_iff.mpr ⟨fits, inRange.1⟩))

end Fits

namespace Segmentation

theorem WrittenExponent.one_le_toInt {text rest : List Char} {exponent : Int32}
    (isWritten : WrittenExponent text exponent rest) : 1 ≤ exponent.toInt := by
  cases isWritten with
  | absent _ => decide
  | @digit character rest low high =>
      have value : Decimal.ofDigits [character] = character.toNat - 48 := by
        simp [Decimal.ofDigits, Nat.ofDigitChars]
      have atLeast : 50 ≤ character.toNat := low
      have atMost : character.toNat ≤ 57 := high
      rw [Int32.toInt_ofNat_of_lt (by omega)]
      omega
  | caret _ _ positive bounded =>
      rw [Int32.toInt_ofNat_of_lt bounded]
      exact_mod_cast positive

theorem IsCut.one_le_exponent {run : List Char} (isCut : IsCut system run cut) :
    ∀ written ∈ cut, 1 ≤ written.exponent.toInt := by
  induction isCut with
  | nil => simp
  | cons begins _ ih =>
      intro written member
      rcases List.mem_cons.mp member with rfl | inRest
      · exact begins.2.one_le_toInt
      · exact ih written inRest

theorem WrittenTerm.exponentOf_one (written : WrittenTerm system) :
    written.term.exponentOf 1 = written.factor := by
  funext base
  rw [Term.exponentOf, Int32.mul_one]
  rfl

theorem WrittenTerm.exponentOf_neg_one {written : WrittenTerm system}
    (positive : 1 ≤ written.exponent.toInt) :
    written.term.exponentOf (-1) = fun base => -written.factor base := by
  have bounded := written.exponent.toInt_lt
  have negated : (written.exponent * -1).toInt = -written.exponent.toInt := by
    rw [Int32.mul_neg, Int32.mul_one, Int32.toInt_neg, Int.bmod_eq_of_le (by omega) (by omega)]
  funext base
  rw [Term.exponentOf, factor, ← Int.mul_neg, ← negated]
  rfl

namespace StandsFor

theorem one_le_exponent (standsFor : StandsFor system group cut) :
    ∀ written ∈ cut, 1 ≤ written.exponent.toInt := by
  cases standsFor with
  | one => simp
  | run _ _ best => exact best.isCut.one_le_exponent

theorem unique {other : List (WrittenTerm system)} (standsFor : StandsFor system group cut)
    (alsoFor : StandsFor system group other) : cut = other := by
  cases standsFor with
  | one =>
      cases alsoFor with
      | one => rfl
      | run _ notOne _ => exact False.elim (notOne rfl)
  | run _ notOne best =>
      cases alsoFor with
      | one => exact False.elim (notOne rfl)
      | run _ _ alsoBest => exact alsoBest.unique best

end StandsFor

/-- The factors that come from the last of several groups. -/
theorem factors_concat (cuts : List (List (WrittenTerm system)))
    (positive : ∀ written ∈ cut, 1 ≤ written.exponent.toInt) :
    factors (cuts ++ [cut]) = factors cuts ++
      (cut.map WrittenTerm.term).map fun term => term.exponentOf (if cuts = [] then 1 else -1) := by
  cases cuts with
  | nil => simp [factors, WrittenTerm.exponentOf_one]
  | cons numerator denominators =>
      simpa [factors] using fun written member =>
        (WrittenTerm.exponentOf_neg_one (positive written member)).symm

/-- Whether an error is the one of the first of several groups that fails. -/
inductive FirstFailure (system : UnitSystem) (literal : String) (groups : List (List Char)) :
    UnitError → Prop where
  | malformed {earlier later : List (List Char)} {group : List Char}
      {cuts : List (List (WrittenTerm system))} (place : groups = earlier ++ group :: later)
      (standFor : List.Forall₂ (StandsFor system) earlier cuts) (fits : Fits (factors cuts))
      (unreadable : Unreadable system group) :
      FirstFailure system literal groups (.malformed literal)
  | exponentOverflow {earlier later : List (List Char)} {group : List Char}
      {cuts : List (List (WrittenTerm system))} {cut : List (WrittenTerm system)}
      (place : groups = earlier ++ group :: later)
      (standFor : List.Forall₂ (StandsFor system) earlier cuts) (fits : Fits (factors cuts))
      (standsFor : StandsFor system group cut) (leaves : ¬Fits (factors (cuts ++ [cut]))) :
      FirstFailure system literal groups .exponentOverflow

theorem FirstFailure.append {literal : String} {groups : List (List Char)} {error : UnitError}
    (fails : FirstFailure system literal groups error) (others : List (List Char)) :
    FirstFailure system literal (groups ++ others) error := by
  cases fails with
  | malformed place standFor fits unreadable =>
      subst place
      exact .malformed (List.append_assoc _ _ _) standFor fits unreadable
  | exponentOverflow place standFor fits standsFor leaves =>
      subst place
      exact .exponentOverflow (List.append_assoc _ _ _) standFor fits standsFor leaves

end Segmentation

end Metrology

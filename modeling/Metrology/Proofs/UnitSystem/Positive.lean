import Mathlib.Algebra.Order.Floor.Semiring
import Metrology.Proofs.Binary64.Power
import Metrology.Proofs.Table.Rows
import Metrology.Proofs.UnitSystem.Literal
import Metrology.Proofs.UnitSystem.Scale

/-!
# When a scale is positive

The units of tables have positive scales, but a unit literal forms powers of ten, powers and
products of them, each of which is rounded, and nothing checks what comes of it. So the scale of a
literal is never negative, but it can be zero, infinite or no number at all. It is positive just if
every exact result on the way is in the range of positive numbers, and this is so for every literal
whose factors are together within 1023 powers of two.
-/

namespace Metrology

open Binary64 Scalar

variable {system : UnitSystem} {term : Term} {sign : Int32} {literal : String}
  {unit result : UnitOfMeasure}

section Product

variable {product : Float} {factors : List Float} {weight : ℕ}

/-- The exact results that are rounded in multiplying a number by factors one after the other. -/
def productSteps : Float → List Float → List ℚ
  | _, [] => []
  | product, factor :: factors =>
      (exactMagnitude product * exactMagnitude factor) :: productSteps (product * factor) factors

theorem unsigned_product (unsigned : Unsigned product)
    (unsignedFactors : ∀ factor ∈ factors, Unsigned factor) :
    Unsigned (factors.foldl (· * ·) product) := by
  induction factors generalizing product with
  | nil => exact unsigned
  | cons factor factors ih =>
      rw [List.forall_mem_cons] at unsignedFactors
      exact ih (gives_mul unsigned unsignedFactors.1).unsigned unsignedFactors.2

/-- A product is positive just if all that is multiplied is and every exact result on the way is in
the range. -/
theorem isPositive_product_iff (unsigned : Unsigned product)
    (unsignedFactors : ∀ factor ∈ factors, Unsigned factor) :
    IsPositive (factors.foldl (· * ·) product) ↔
      IsPositive product ∧ (∀ factor ∈ factors, IsPositive factor) ∧
        ∀ exact ∈ productSteps product factors, InPositiveRange exact := by
  induction factors generalizing product with
  | nil => simp [productSteps]
  | cons factor factors ih =>
      rw [List.forall_mem_cons] at unsignedFactors
      have gives := gives_mul unsigned unsignedFactors.1
      have ofStep := isPositive_of_mul unsigned unsignedFactors.1
      rw [List.foldl_cons, ih gives.unsigned unsignedFactors.2, gives.isPositive_iff, productSteps,
        List.forall_mem_cons, List.forall_mem_cons]
      tauto

theorem within_product {Factor : Type} {factors : List Factor} {valueOf : Factor → Float}
    {weightOf : Factor → ℕ} (within : Within weight product)
    (withinFactors : ∀ factor ∈ factors, Within (weightOf factor) (valueOf factor))
    (atMost : weight + (factors.map weightOf).sum ≤ 1023) :
    Within (weight + (factors.map weightOf).sum)
      ((factors.map valueOf).foldl (· * ·) product) := by
  induction factors generalizing product weight with
  | nil => simpa using within
  | cons factor factors ih =>
      rw [List.forall_mem_cons] at withinFactors
      rw [List.map_cons, List.sum_cons, ← Nat.add_assoc] at atMost ⊢
      exact ih (within.mul withinFactors.1 (by omega)) withinFactors.2 atMost

end Product

/-- The number of powers of two between a positive number and one. -/
def weight (number : Float) : ℕ :=
  (max (Int.clog 2 (exactMagnitude number)) (-Int.log 2 (exactMagnitude number))).toNat

theorem within_weight {number : Float} (positive : IsPositive number) :
    Within (weight number) number := by
  have magnitudePos := positive.exactMagnitude_pos
  refine ⟨positive, ?_, ?_⟩
  · refine le_trans (zpow_le_zpow_right₀ (by norm_num) ?_)
      (Int.zpow_log_le_self (b := 2) (by norm_num) magnitudePos)
    rw [weight]
    omega
  · refine le_trans (Int.self_le_zpow_clog (b := 2) (by norm_num) _)
      (zpow_le_zpow_right₀ (by norm_num) ?_)
    rw [weight]
    omega

theorem within_ten : Within 4 10 := by
  have isTen : unpacked 10 = .finite .positive 5629499534213120 (-49) (by norm_num) := rfl
  refine ⟨isPositive_iff_parts.mpr ⟨_, _, _, isTen⟩, ?_, ?_⟩ <;>
    rw [exactMagnitude_of_finite isTen] <;> norm_num

namespace Term

/-- The power of ten of a term's prefix. -/
def prefixFactor (term : Term) : Float :=
  Scalar.power 10 term.prefixPower.toInt

/-- The scale of a term without its exponent. -/
def factor (term : Term) : Float :=
  term.unit.unit.scale * term.prefixFactor

/-- The exact results that are rounded in forming the scale of a term. -/
def scaleSteps (term : Term) (sign : Int32) : List ℚ :=
  powerSteps 10 term.prefixPower.toInt ++
    (exactMagnitude term.unit.unit.scale * exactMagnitude term.prefixFactor) ::
      powerSteps term.factor (term.exponent * sign).toInt

/-- The number of powers of two between the scale of a term and one, at most. -/
def scaleWeight (term : Term) : ℕ :=
  term.exponent.toInt.natAbs * (weight term.unit.unit.scale + term.prefixPower.toInt.natAbs * 4)

/-- Whether a term is as those of literals are: its unit has a positive scale, its exponent is at
least one and is taken with a sign. -/
structure IsRegular (term : Term) (sign : Int32) : Prop where
  positive : IsPositive term.unit.unit.scale
  oneLe : 1 ≤ term.exponent.toInt
  isSign : sign = 1 ∨ sign = -1

namespace IsRegular

variable (regular : term.IsRegular sign)
include regular

theorem natAbs_exponent : (term.exponent * sign).toInt.natAbs = term.exponent.toInt.natAbs := by
  have atLeast := regular.oneLe
  have below := Int32.toInt_lt term.exponent
  rw [Int32.toInt_mul]
  rcases regular.isSign with rfl | rfl
  · simp only [Int32.reduceToInt]
    rw [Int.bmod_eq_of_le] <;> omega
  · simp only [Int32.reduceToInt]
    rw [Int.bmod_eq_of_le] <;> omega

theorem exponent_ne_zero : (term.exponent * sign).toInt ≠ 0 := by
  have sameSize := regular.natAbs_exponent
  have atLeast := regular.oneLe
  omega

theorem unsigned_factor : Unsigned term.factor :=
  (gives_mul regular.positive.unsigned (unsigned_power within_ten.positive.unsigned _)).unsigned

theorem unsigned_scaleOf : Unsigned (term.scaleOf sign) :=
  unsigned_power regular.unsigned_factor _

/-- The scale of a term is positive just if every exact result on the way is in the range. -/
theorem isPositive_scaleOf_iff :
    IsPositive (term.scaleOf sign) ↔ ∀ exact ∈ term.scaleSteps sign, InPositiveRange exact := by
  have unsignedPrefix : Unsigned term.prefixFactor := unsigned_power within_ten.positive.unsigned _
  have ofPrefix := isPositive_power_iff within_ten.positive.unsigned term.prefixPower.toInt
  have gives := gives_mul regular.positive.unsigned unsignedPrefix
  have ofPower := isPositive_power_iff regular.unsigned_factor (term.exponent * sign).toInt
  have ofFactor := isPositive_of_power regular.unsigned_factor regular.exponent_ne_zero
  rw [scaleSteps, List.forall_mem_append, List.forall_mem_cons, ← ofPrefix, ← ofPower]
  constructor
  · intro positive
    have inRange := gives.isPositive_iff.mp (ofFactor positive)
    exact ⟨(isPositive_of_mul regular.positive.unsigned unsignedPrefix inRange).2, inRange,
      positive⟩
  · exact fun steps => steps.2.2

/-- The exponent of a term multiplies the distance of its factor from one. -/
theorem within_scaleOf (atMost : term.scaleWeight ≤ 1023) :
    Within term.scaleWeight (term.scaleOf sign) := by
  have factorLe : 1 * (weight term.unit.unit.scale + term.prefixPower.toInt.natAbs * 4) ≤
      term.scaleWeight := by
    have := regular.oneLe
    exact Nat.mul_le_mul_right _ (by omega)
  have ofPrefix : Within (term.prefixPower.toInt.natAbs * 4) term.prefixFactor :=
    within_power within_ten _ (by omega)
  have ofFactor := (within_weight regular.positive).mul ofPrefix (by omega)
  rw [scaleWeight, ← regular.natAbs_exponent] at atMost ⊢
  exact within_power ofFactor _ atMost

end IsRegular

end Term

namespace UnitSystem

/-- The terms of a run of units. The run `1` has none. -/
def runTerms (system : UnitSystem) (run : List Char) : List Term :=
  if run = ['1'] then [] else (system.segment? run).getD []

/-- The terms of a literal with the signs of their exponents, which are negative behind a slash. -/
def signedTerms (system : UnitSystem) (literal : String) : List (Term × Int32) :=
  match groups literal with
  | [] => []
  | numerator :: denominators =>
      (system.runTerms numerator).map (·, 1) ++
        (denominators.flatMap system.runTerms).map (·, -1)

/-- The exact results that are rounded in forming the scale of a literal. -/
def scaleSteps (system : UnitSystem) (literal : String) : List ℚ :=
  (system.signedTerms literal).flatMap (fun factor => factor.1.scaleSteps factor.2) ++
    productSteps 1 ((system.signedTerms literal).map fun factor => factor.1.scaleOf factor.2)

/-- The number of powers of two between the scale of a literal and one, at most. -/
def scaleWeight (system : UnitSystem) (literal : String) : ℕ :=
  ((system.signedTerms literal).map fun factor => factor.1.scaleWeight).sum

theorem scale_of_multiplyRun {run : List Char}
    (reads : system.multiplyRun literal sign unit run = .ok result) :
    result.scale =
      ((system.runTerms run).map fun term => term.scaleOf sign).foldl (· * ·) unit.scale := by
  unfold multiplyRun at reads
  split at reads
  · cases reads
  · split at reads
    · rename_i isOne
      cases reads
      rw [runTerms, if_pos isOne]
      rfl
    · rename_i notOne
      split at reads
      · cases reads
      · rename_i terms isTerms
        rw [runTerms, if_neg notOne, isTerms, Option.getD_some, scale_of_multiplyTerms reads,
          scaleProduct, List.foldl_map]

/-- The scale of a literal is the product of those of its terms. -/
theorem scale_of_parse (reads : system.parse literal = .ok unit) :
    unit.scale = ((system.signedTerms literal).map fun factor =>
      factor.1.scaleOf factor.2).foldl (· * ·) 1 := by
  rcases isSplit : groups literal with _ | ⟨numerator, _ | ⟨denominator, _ | ⟨third, others⟩⟩⟩
  · exact absurd isSplit (groups_ne_nil literal)
  · have isTerms : system.signedTerms literal = (system.runTerms numerator).map (·, 1) := by
      simp [signedTerms, isSplit]
    rw [isTerms, List.map_map]
    by_cases isEmpty : numerator = []
    · subst isEmpty
      have noTerms : system.runTerms [] = [] := by
        simp [runTerms, segment?, Segmentation.choices, Segmentation.follow]
      rw [parse, ← compacted, ← groups, isSplit] at reads
      cases reads
      rw [noTerms]
      rfl
    · rw [parse_of_singleton isSplit isEmpty] at reads
      exact scale_of_multiplyRun reads
  · have isTerms : system.signedTerms literal = (system.runTerms numerator).map (·, 1) ++
        (system.runTerms denominator).map (·, -1) := by
      simp [signedTerms, isSplit]
    rw [isTerms, List.map_append, List.map_map, List.map_map, List.foldl_append]
    rw [parse_of_pair isSplit] at reads
    rcases bind_eq_ok.mp reads with ⟨first, readsFirst, readsSecond⟩
    rw [scale_of_multiplyRun readsSecond, scale_of_multiplyRun readsFirst]
    rfl
  · rw [parse_of_many isSplit] at reads
    cases reads

theorem isRegular_of_mem_runTerms (positive : ∀ definition ∈ system.units,
    IsPositive definition.unit.scale) (isSign : sign = 1 ∨ sign = -1) {run : List Char}
    (member : term ∈ system.runTerms run) : term.IsRegular sign := by
  unfold runTerms at member
  split at member
  · cases member
  · cases isTerms : system.segment? run with
    | none =>
        rw [isTerms] at member
        cases member
    | some terms =>
        rw [isTerms, Option.getD_some] at member
        rcases Segmentation.exists_isBestCut_of_segment? isTerms with ⟨cut, best, rfl⟩
        rcases List.mem_map.mp member with ⟨written, inCut, rfl⟩
        exact ⟨positive _ (List.get_mem system.units written.unitRow),
          best.isCut.one_le_exponent written inCut, isSign⟩

theorem isRegular_of_mem_signedTerms (positive : ∀ definition ∈ system.units,
    IsPositive definition.unit.scale) :
    ∀ factor ∈ system.signedTerms literal, factor.1.IsRegular factor.2 := by
  intro factor member
  unfold signedTerms at member
  split at member
  · cases member
  · rcases List.mem_append.mp member with inNumerator | inDenominators
    · rcases List.mem_map.mp inNumerator with ⟨term, inRun, rfl⟩
      exact isRegular_of_mem_runTerms positive (.inl rfl) inRun
    · rcases List.mem_map.mp inDenominators with ⟨term, inRuns, rfl⟩
      rcases List.mem_flatMap.mp inRuns with ⟨run, _, inRun⟩
      exact isRegular_of_mem_runTerms positive (.inr rfl) inRun

/-- In a unit system of tables, the scale of a unit literal never has a negative sign. It is a
positive real just if every exact result that is rounded on the way is in the range of positive
numbers, which is so wherever the factors are together within 1023 powers of two. -/
theorem scale_positive_iff {unitTable prefixTable : Option String} {system : UnitSystem}
    (isSystem : ofTables unitTable prefixTable = .ok system) {literal : String}
    {unit : UnitOfMeasure} (reads : system.parse literal = .ok unit) :
    Decimal.signOf unit.scale = false ∧
      (IsPositive unit.scale ↔ ∀ exact ∈ system.scaleSteps literal, InPositiveRange exact) ∧
      (system.scaleWeight literal ≤ 1023 → IsPositive unit.scale) := by
  have regular : ∀ factor ∈ system.signedTerms literal, factor.1.IsRegular factor.2 :=
    isRegular_of_mem_signedTerms (isPositive_of_ofTables isSystem)
  have unsignedFactors : ∀ factor ∈ (system.signedTerms literal).map fun factor =>
      factor.1.scaleOf factor.2, Unsigned factor := by
    simp only [List.forall_mem_map]
    exact fun factor member => (regular factor member).unsigned_scaleOf
  have ofProduct := isPositive_product_iff isPositive_one.unsigned unsignedFactors
  rw [scale_of_parse reads]
  refine ⟨?_, ?_, fun atMost => ?_⟩
  · rw [signOf_eq_isNegative]
    exact unsigned_product isPositive_one.unsigned unsignedFactors
  · rw [ofProduct, and_iff_right isPositive_one, scaleSteps, List.forall_mem_append,
      List.forall_mem_flatMap, List.forall_mem_map]
    refine and_congr_left fun _ => forall₂_congr fun factor member => ?_
    exact (regular factor member).isPositive_scaleOf_iff
  · have eachLe : ∀ factor ∈ system.signedTerms literal, factor.1.scaleWeight ≤ 1023 := by
      intro factor member
      exact (List.le_sum_of_mem (List.mem_map_of_mem member)).trans atMost
    have within := within_product within_one
      (fun factor member => (regular factor member).within_scaleOf (eachLe factor member))
      (by simpa [scaleWeight] using atMost)
    exact within.positive

theorem weight_one : weight 1 = 0 := by
  simp [weight]

/-- The scale of the kilometer is within twelve powers of two. -/
theorem scale_positive_iff_kilometer :
    ofTables none none = .ok builtin ∧
      ∃ unit, builtin.parse "km" = .ok unit ∧ IsPositive unit.scale ∧
        ∀ exact ∈ builtin.scaleSteps "km", InPositiveRange exact := by
  have isSystem : ofTables none none = .ok builtin := rfl
  have isWeight : builtin.scaleWeight "km" = 12 := by
    have isTerms : (builtin.signedTerms "km").map (fun factor =>
        (factor.1.exponent.toInt.natAbs, factor.1.unit.unit.scale,
          factor.1.prefixPower.toInt.natAbs)) = [(1, 1, 3)] := by
      decide +kernel
    have isSum : builtin.scaleWeight "km" =
        (((builtin.signedTerms "km").map fun factor =>
          (factor.1.exponent.toInt.natAbs, factor.1.unit.unit.scale,
            factor.1.prefixPower.toInt.natAbs)).map fun (exponent, scale, power) =>
              exponent * (weight scale + power * 4)).sum := by
      rw [List.map_map]
      rfl
    rw [isSum, isTerms]
    simp [weight_one]
  have isThousand : (builtin.parse "km").toOption.any (fun unit => unit.scale = 1000) = true := by
    decide +kernel
  rcases exists_ok_of_any isThousand with ⟨unit, reads, _⟩
  rcases scale_positive_iff isSystem reads with ⟨_, positiveIff, ofWeight⟩
  have positive := ofWeight (by rw [isWeight]; norm_num)
  exact ⟨isSystem, unit, reads, positive, positiveIff.mp positive⟩

/-- A quotient of large powers of terameters has a scale that is no number, although what it
stands for is a terameter, and a large power of a picometer has scale zero. -/
theorem not_scale_positive :
    ofTables none none = .ok builtin ∧
      (∃ unit, builtin.parse "Tm^30/Tm^29" = .ok unit ∧ unit.scale.isNaN = true ∧
        ¬IsPositive unit.scale) ∧
      ∃ unit, builtin.parse "pm^99" = .ok unit ∧ unit.scale = 0 ∧ ¬IsPositive unit.scale := by
  have isUndefined : (builtin.parse "Tm^30/Tm^29").toOption.any
      (fun unit => unit.scale.isNaN && !unit.scale.isFinite) = true := by
    decide +kernel
  have isZero : (builtin.parse "pm^99").toOption.any (fun unit => unit.scale = 0) = true := by
    decide +kernel
  refine ⟨rfl, ?_, ?_⟩
  · rcases exists_ok_of_any isUndefined with ⟨unit, reads, undefined⟩
    rcases Bool.and_eq_true_iff.mp undefined with ⟨isNaN, notFinite⟩
    refine ⟨unit, reads, isNaN, fun positive => ?_⟩
    rw [positive.isFinite] at notFinite
    cases notFinite
  · rcases exists_ok_of_any isZero with ⟨unit, reads, zero⟩
    have sameScale : unit.scale = 0 := of_decide_eq_true zero
    refine ⟨unit, reads, sameScale, fun positive => ?_⟩
    have magnitudePos := positive.exactMagnitude_pos
    rw [sameScale] at magnitudePos
    exact absurd magnitudePos (by decide +kernel)

end UnitSystem

end Metrology

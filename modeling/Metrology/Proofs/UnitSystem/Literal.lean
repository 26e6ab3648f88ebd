import Mathlib.Algebra.BigOperators.Group.List.Basic
import Metrology.Proofs.UnitSystem.Grammar

/-!
# Unit literals and their grammar

A literal without its blanks is nothing at all, or it is one or two groups with a slash between
them. `UnitSystem.parse` reads just the literals whose groups have a meaning, and for the others it
reports what is wrong with the first group that fails. The groups are multiplied onto a unit one
after the other. What is kept from one group to the next is that the unit has the sums of all
factors so far as its exponents, and that they fit.
-/

namespace Metrology

/-- An error with another text to quote. -/
def UnitError.quoting (text : String) : UnitError → UnitError
  | .malformed _ => .malformed text
  | .multipleSlashes _ => .multipleSlashes text
  | .exponentOverflow => .exponentOverflow

namespace UnitSystem

open Segmentation

variable {system : UnitSystem} {literal : String} {unit : UnitOfMeasure} {group : List Char}
  {cuts : List (List (WrittenTerm system))} {cut : List (WrittenTerm system)}

/-- Whether a unit is the product of the terms of several groups. -/
structure Accumulates (cuts : List (List (WrittenTerm system))) (unit : UnitOfMeasure) : Prop where
  fits : Fits (factors cuts)
  total : ∀ base, unit.dimension.toInts base = ((factors cuts).map (· base)).sum

theorem unreadable_or_standsFor (system : UnitSystem) (group : List Char) :
    Unreadable system group ∨ ∃ cut, StandsFor system group cut := by
  by_cases empty : group = []
  · exact .inl (.inl empty)
  by_cases isOne : group = ['1']
  · subst isOne
    exact .inr ⟨[], .one⟩
  cases found : system.segment? group with
  | none => exact .inl (.inr ⟨isOne, segment?_eq_none_iff.mp found⟩)
  | some terms =>
      rcases exists_isBestCut_of_segment? found with ⟨cut, best, _⟩
      exact .inr ⟨cut, .run empty isOne best⟩

theorem multiplyRun_of_unreadable (unreadable : Unreadable system group) (sign : Int32) :
    system.multiplyRun literal sign unit group = .error (.malformed literal) := by
  rcases unreadable with rfl | ⟨notOne, noCut⟩
  · rfl
  · rw [multiplyRun, if_neg notOne, segment?_eq_none_iff.mpr noCut]
    split <;> rfl

theorem multiplyRun_of_standsFor (standsFor : StandsFor system group cut) (sign : Int32) :
    system.multiplyRun literal sign unit group =
      multiplyTerms sign unit (cut.map WrittenTerm.term) := by
  cases standsFor with
  | one => rfl
  | run nonempty notOne best =>
      rw [multiplyRun, if_neg (by simpa using nonempty), if_neg notOne,
        segment?_of_isBestCut best]

/-- A further group has no meaning, or its terms are multiplied onto the product of the earlier
ones, unless they leave the range. -/
theorem Accumulates.multiplyRun_cases (accumulates : Accumulates cuts unit) (literal : String)
    (group : List Char) (sign : Int32) (isSign : sign = if cuts = [] then 1 else -1) :
    (Unreadable system group ∧
        system.multiplyRun literal sign unit group = .error (.malformed literal)) ∨
      ∃ cut, StandsFor system group cut ∧
        ((∃ result, system.multiplyRun literal sign unit group = .ok result ∧
            Accumulates (cuts ++ [cut]) result) ∨
          system.multiplyRun literal sign unit group = .error .exponentOverflow ∧
            ¬Fits (factors (cuts ++ [cut]))) := by
  rcases unreadable_or_standsFor system group with unreadable | ⟨cut, standsFor⟩
  · exact .inl ⟨unreadable, multiplyRun_of_unreadable unreadable sign⟩
  · refine .inr ⟨cut, standsFor, ?_⟩
    have isConcat := factors_concat cuts standsFor.one_le_exponent
    rw [← isSign] at isConcat
    have fitsIff : Fits (factors (cuts ++ [cut])) ↔
        ProductInRange sign unit.dimension.toInts (cut.map WrittenTerm.term) := by
      rw [isConcat, accumulates.fits.append_iff, ← funext accumulates.total]
    rw [multiplyRun_of_standsFor standsFor, fitsIff]
    rcases multiplyTerms_cases sign unit (cut.map WrittenTerm.term) with
      ⟨result, isProduct, inRange⟩ | overflow
    · refine .inl ⟨result, isProduct, fitsIff.mpr inRange, fun base => ?_⟩
      rw [toInts_of_multiplyTerms isProduct, isConcat, accumulates.total]
      simp [Function.comp_def]
    · exact .inr overflow

/-- What reading groups one after the other comes to. -/
inductive Outcome (system : UnitSystem) (literal : String) (groups : List (List Char)) :
    Except UnitError UnitOfMeasure → Prop where
  | reads {unit : UnitOfMeasure} {cuts : List (List (WrittenTerm system))}
      (standFor : List.Forall₂ (StandsFor system) groups cuts)
      (accumulates : Accumulates cuts unit) : Outcome system literal groups (.ok unit)
  | fails {error : UnitError} (failure : FirstFailure system literal groups error) :
      Outcome system literal groups (.error error)

theorem Outcome.concat {groups : List (List Char)} {result : Except UnitError UnitOfMeasure}
    (outcome : Outcome system literal groups result) (group : List Char) (sign : Int32)
    (isSign : sign = if groups = [] then 1 else -1) :
    Outcome system literal (groups ++ [group])
      (result >>= fun unit => system.multiplyRun literal sign unit group) := by
  cases outcome with
  | fails failure => exact .fails (failure.append [group])
  | @reads unit cuts standFor accumulates =>
      have sameSign : sign = if cuts = [] then 1 else -1 := by
        cases standFor <;> simpa using isSign
      change Outcome system literal _ (system.multiplyRun literal sign unit group)
      rcases accumulates.multiplyRun_cases literal group sign sameSign with
        ⟨unreadable, fails⟩ | ⟨cut, standsFor, ⟨unit, reads, accumulates⟩ | ⟨fails, leaves⟩⟩
      · rw [fails]
        exact .fails (.malformed rfl standFor accumulates.fits unreadable)
      · rw [reads]
        exact .reads (List.rel_append standFor (.cons standsFor .nil)) accumulates
      · rw [fails]
        exact .fails (.exponentOverflow rfl standFor accumulates.fits standsFor leaves)

/-- A literal without its blanks. -/
def compacted (literal : String) : List Char :=
  Text.compact literal.toList

/-- What stands between the slashes of a literal. -/
def groups (literal : String) : List (List Char) :=
  (compacted literal).splitOn '/'

theorem groups_ne_nil (literal : String) : groups literal ≠ [] :=
  List.splitOn_ne_nil _ _

theorem parse_of_singleton (isSplit : groups literal = [group])
    (nonempty : group ≠ []) :
    system.parse literal = system.multiplyRun literal 1 .one group := by
  rw [parse, ← compacted, ← groups, isSplit]
  cases group with
  | nil => exact False.elim (nonempty rfl)
  | cons first text => rfl

theorem parse_of_pair {denominator : List Char}
    (isSplit : groups literal = [group, denominator]) :
    system.parse literal =
      (system.multiplyRun literal 1 .one group >>= fun unit =>
        system.multiplyRun literal (-1) unit denominator) := by
  rw [parse, ← compacted, ← groups, isSplit]
  cases group <;> rfl

theorem parse_of_many {second third : List Char} {others : List (List Char)}
    (isSplit : groups literal = group :: second :: third :: others) :
    system.parse literal = .error (.multipleSlashes literal) := by
  rw [parse, ← compacted, ← groups, isSplit]
  cases group <;> rfl

theorem multiplyRun_mapError (sign : Int32) (unit : UnitOfMeasure) (group : List Char)
    (literal other : String) :
    (system.multiplyRun literal sign unit group).mapError (·.quoting other) =
      system.multiplyRun other sign unit group := by
  rcases unreadable_or_standsFor system group with unreadable | ⟨cut, standsFor⟩
  · rw [multiplyRun_of_unreadable unreadable, multiplyRun_of_unreadable unreadable]
    rfl
  · rw [multiplyRun_of_standsFor standsFor, multiplyRun_of_standsFor standsFor]
    rcases multiplyTerms_cases sign unit (cut.map WrittenTerm.term) with
      ⟨result, isProduct, _⟩ | ⟨overflow, _⟩
    · rw [isProduct]
      rfl
    · rw [overflow]
      rfl

/-- Blanks matter only in the text that an error quotes. -/
theorem parse_mapError {other : String}
    (same : Text.compact other.toList = Text.compact literal.toList) :
    (system.parse literal).mapError (·.quoting other) = system.parse other := by
  unfold parse
  rw [same]
  split
  · rfl
  · rfl
  · exact multiplyRun_mapError 1 .one _ literal other
  · rename_i numerator denominator _
    rw [← multiplyRun_mapError 1 .one numerator literal other]
    cases system.multiplyRun literal 1 .one numerator with
    | error error => rfl
    | ok unit => exact multiplyRun_mapError (-1) unit denominator literal other
  · rfl

end UnitSystem

end Metrology

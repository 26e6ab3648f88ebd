import Mathlib.Data.List.Basic
import Metrology.Proofs.Segmentation.Cut

/-!
# The terms that a text begins with

`steps` lists the terms that a text begins with. This file lists the same terms by their rows and
shows that the list is complete, that it has nothing else, and that it is in the order of the rows.
-/

namespace Metrology.Segmentation

/-- The terms with a given prefix that a text begins with. The text is what follows the prefix. -/
def writtenAfter (system : UnitSystem) (prefixRow : Option (Fin system.prefixes.length))
    (text : List Char) : List (WrittenTerm system) :=
  (List.finRange system.units.length).filterMap fun unitRow => do
    let rest ← (system.units.get unitRow).abbreviation.toList.isPrefixOf? text
    let (exponent, used) ← readExponent rest
    return ⟨prefixRow, unitRow, rest.take used, exponent⟩

def writtenAt (system : UnitSystem) : List Char → List (WrittenTerm system)
  | [] => writtenAfter system none []
  | first :: rest =>
      writtenAfter system none (first :: rest) ++
        ((List.finRange system.prefixes.length).filter fun row =>
          (system.prefixes.get row).symbol == first).flatMap fun row =>
            writtenAfter system (some row) rest

def WrittenTerm.step {system : UnitSystem} (written : WrittenTerm system) : Step :=
  ⟨written.term, written.text.length⟩

variable {system : UnitSystem}

theorem mem_writtenAfter {prefixRow : Option (Fin system.prefixes.length)} {text : List Char}
    {written : WrittenTerm system} :
    written ∈ writtenAfter system prefixRow text ↔
      written.prefixRow = prefixRow ∧
        ∃ rest, text = written.unit.abbreviation.toList ++ (written.exponentText ++ rest) ∧
          WrittenExponent written.exponentText written.exponent rest := by
  simp only [writtenAfter, List.mem_filterMap, List.mem_finRange, true_and, Option.bind_eq_bind,
    Option.bind_eq_some_iff, Option.pure_def, Option.some.injEq, Prod.exists,
    List.isPrefixOf?_eq_some_iff_append_eq]
  constructor
  · rintro ⟨unitRow, afterUnit, rfl, exponent, used, read, rfl⟩
    rcases exists_writtenExponent_of_readExponent read with
      ⟨exponentText, rest, rfl, exponentWritten, rfl⟩
    refine ⟨rfl, rest, ?_, ?_⟩
    · simp [WrittenTerm.unit]
    · simpa using exponentWritten
  · rintro ⟨rfl, rest, rfl, exponentWritten⟩
    refine ⟨written.unitRow, written.exponentText ++ rest, rfl, written.exponent,
      written.exponentText.length, readExponent_append exponentWritten, ?_⟩
    simp

/-- The list has exactly the terms that the run begins with. -/
theorem mem_writtenAt {run : List Char} {written : WrittenTerm system} :
    written ∈ writtenAt system run ↔ ∃ rest, written.Begins run rest := by
  have unprefixed : written ∈ writtenAfter system none run ↔
      written.prefixRow = none ∧ ∃ rest, written.Begins run rest := by
    rw [mem_writtenAfter]
    refine and_congr_right fun noPrefix => exists_congr fun rest => ?_
    simp [WrittenTerm.Begins, WrittenTerm.text, WrittenTerm.symbols, WrittenTerm.metricPrefix,
      noPrefix]
  cases run with
  | nil =>
      rw [writtenAt, unprefixed]
      constructor
      · exact fun ⟨_, begins⟩ => begins
      · rintro ⟨rest, begins⟩
        refine ⟨?_, rest, begins⟩
        cases isPrefix : written.prefixRow with
        | none => rfl
        | some row =>
            have same := begins.1
            simp [WrittenTerm.text, WrittenTerm.symbols, WrittenTerm.metricPrefix, isPrefix]
              at same
  | cons first text =>
      simp only [writtenAt, List.mem_append, unprefixed, List.mem_flatMap, List.mem_filter,
        List.mem_finRange, true_and, beq_iff_eq, mem_writtenAfter]
      constructor
      · rintro (⟨_, begins⟩ | ⟨row, isSymbol, isPrefix, rest, rfl, exponentWritten⟩)
        · exact begins
        · refine ⟨rest, ?_, exponentWritten⟩
          simp [WrittenTerm.text, WrittenTerm.symbols, WrittenTerm.metricPrefix, isPrefix,
            ← isSymbol]
      · rintro ⟨rest, begins⟩
        cases isPrefix : written.prefixRow with
        | none => exact .inl ⟨rfl, rest, begins⟩
        | some row =>
            have same := begins.1
            simp only [WrittenTerm.text, WrittenTerm.symbols, WrittenTerm.metricPrefix, isPrefix,
              Option.map_some, Option.toList_some, List.cons_append, List.nil_append,
              List.append_assoc, List.cons.injEq] at same
            exact .inr ⟨row, same.1.symm, rfl, rest, same.2, begins.2⟩

/-- The list is in the order of the rows. -/
theorem pairwise_rowsBefore_writtenAt (system : UnitSystem) (run : List Char) :
    (writtenAt system run).Pairwise WrittenTerm.RowsBefore := by
  have unitOrder : ∀ (prefixRow : Option (Fin system.prefixes.length)) (text : List Char),
      (writtenAfter system prefixRow text).Pairwise WrittenTerm.RowsBefore := by
    intro prefixRow text
    refine List.pairwise_filterMap.mpr ((List.pairwise_lt_finRange _).imp ?_)
    intro left right before written isLeft other isRight
    simp only [Option.bind_eq_bind, Option.bind_eq_some_iff, Option.pure_def, Option.some.injEq]
      at isLeft isRight
    rcases isLeft with ⟨_, _, _, _, rfl⟩
    rcases isRight with ⟨_, _, _, _, rfl⟩
    exact .inr ⟨rfl, before⟩
  cases run with
  | nil => exact unitOrder none []
  | cons first text =>
      refine List.pairwise_append.mpr ⟨unitOrder none _, ?_, ?_⟩
      · refine List.pairwise_flatMap.mpr ⟨fun row _ => unitOrder (some row) text, ?_⟩
        refine ((List.pairwise_lt_finRange _).filter _).imp ?_
        intro row laterRow before written isWritten later isLater
        have isRow := (mem_writtenAfter.mp isWritten).1
        have isLaterRow := (mem_writtenAfter.mp isLater).1
        left
        simp only [WrittenTerm.prefixRank, isRow, isLaterRow, Option.elim_some]
        exact Nat.succ_lt_succ before
      · intro written isWritten later isLater
        simp only [List.mem_flatMap] at isLater
        rcases isLater with ⟨row, _, isLater⟩
        have isRow := (mem_writtenAfter.mp isWritten).1
        have isLaterRow := (mem_writtenAfter.mp isLater).1
        left
        simp [WrittenTerm.prefixRank, isRow, isLaterRow]

theorem stepsAfter_eq_map_step (prefixRow : Option (Fin system.prefixes.length))
    (text : List Char) :
    stepsAfter system.units (prefixRow.map system.prefixes.get)
        prefixRow.toList.length text =
      (writtenAfter system prefixRow text).map WrittenTerm.step := by
  conv => lhs; rw [stepsAfter, ← List.map_getElem_finRange system.units]
  rw [List.filterMap_map, writtenAfter, List.map_filterMap]
  apply List.filterMap_congr
  intro row _
  simp only [Function.comp_apply]
  cases system.units[row.val].abbreviation.toList.isPrefixOf? text with
  | none => rfl
  | some rest =>
      cases read : readExponent rest with
      | none => simp [read]
      | some exponentAndUsed =>
          rcases exists_writtenExponent_of_readExponent read with ⟨_, _, rfl, _, sameLength⟩
          cases prefixRow <;>
            simp [read, sameLength, WrittenTerm.step, WrittenTerm.term, WrittenTerm.metricPrefix,
              WrittenTerm.unit, WrittenTerm.text, WrittenTerm.symbols, String.length_toList]
          omega

/-- The steps of a run are the terms that the run begins with. -/
theorem steps_eq_map_step (run : List Char) :
    steps system run = (writtenAt system run).map WrittenTerm.step := by
  cases run with
  | nil => exact stepsAfter_eq_map_step none []
  | cons first rest =>
      have fitting : system.prefixes.filter (fun metricPrefix => metricPrefix.symbol == first) =
          ((List.finRange system.prefixes.length).filter fun row =>
            system.prefixes[row].symbol == first).map fun row => system.prefixes[row] := by
        conv => lhs; rw [← List.map_getElem_finRange system.prefixes]
        rw [List.filter_map]
        rfl
      rw [steps, writtenAt, List.map_append, List.map_flatMap, fitting, List.flatMap_map]
      have unprefixed : stepsAfter system.units none 0 (first :: rest) =
          (writtenAfter system none (first :: rest)).map WrittenTerm.step :=
        stepsAfter_eq_map_step none (first :: rest)
      rw [unprefixed]
      congr 1
      apply List.flatMap_congr
      intro row _
      exact stepsAfter_eq_map_step (some row) rest

end Metrology.Segmentation

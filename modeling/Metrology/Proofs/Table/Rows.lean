import Metrology.Proofs.Binary64.Positive
import Metrology.Proofs.UnitSystem.Product
import Metrology.Table.Units

/-!
# Accepted rows

Whatever a table gives was accepted from one of its rows. So what the check of a row asks for holds
of all results of a table: the scales of the units of every unit system that is read from tables are
positive.
-/

namespace Metrology

/-- A first row is read and accepted before the rest of the table. -/
theorem acceptRows_cons_eq_ok_iff {Source Row Result : Type} {read? : Source → Option Row}
    {accept : Row → Except RowFault Result} {line : Nat} {source : Source} {rest : List Source}
    {results : List Result} :
    acceptRows read? accept line (source :: rest) = .ok results ↔
      ∃ row result later, read? source = some row ∧ accept row = .ok result ∧
        acceptRows read? accept (line + 1) rest = .ok later ∧ results = result :: later := by
  rw [acceptRows]
  constructor
  · intro accepted
    split at accepted
    · cases accepted
    · rename_i row isRow
      split at accepted
      · cases accepted
      · rename_i result isResult
        rcases bind_eq_ok.mp accepted with ⟨later, isRest, isResults⟩
        cases isResults
        exact ⟨row, result, later, isRow, isResult, isRest, rfl⟩
  · rintro ⟨row, result, later, isRow, isResult, isRest, rfl⟩
    simp only [isRow, isResult, isRest]
    rfl

/-- A table of rows gives results just if all of its records are read and all of their rows are
accepted. The results are those of the rows, in order. -/
theorem acceptRows_eq_ok_iff {Source Row Result : Type} {read? : Source → Option Row}
    {accept : Row → Except RowFault Result} {line : Nat} {sources : List Source}
    {results : List Result} :
    acceptRows read? accept line sources = .ok results ↔
      ∃ rows, sources.mapM read? = some rows ∧
        List.Forall₂ (fun row result => accept row = .ok result) rows results := by
  induction sources generalizing line results with
  | nil =>
      constructor
      · rintro ⟨⟩
        exact ⟨[], rfl, .nil⟩
      · rintro ⟨rows, ⟨⟩, ⟨⟩⟩
        rfl
  | cons source rest ih =>
      rw [acceptRows_cons_eq_ok_iff, List.mapM_cons]
      constructor
      · rintro ⟨row, result, later, isRow, isResult, isRest, rfl⟩
        rcases ih.mp isRest with ⟨rows, areRows, areResults⟩
        exact ⟨row :: rows, by rw [isRow, areRows]; rfl, .cons isResult areResults⟩
      · rintro ⟨_, areRows, areResults⟩
        rcases Option.bind_eq_some_iff.mp areRows with ⟨row, isRow, ofRest⟩
        rcases Option.bind_eq_some_iff.mp ofRest with ⟨rows, areRest, ⟨⟩⟩
        cases areResults with
        | cons isResult areLater =>
            exact ⟨row, _, _, isRow, isResult, ih.mpr ⟨rows, areRest, areLater⟩, rfl⟩

/-- What a table of rows gives are the results that its rows are accepted as. -/
theorem exists_accept_of_acceptRows {Source Row Result : Type} {read? : Source → Option Row}
    {accept : Row → Except RowFault Result} {line : Nat} {sources : List Source}
    {results : List Result} (accepted : acceptRows read? accept line sources = .ok results) :
    ∀ result ∈ results, ∃ row, accept row = .ok result := by
  rcases acceptRows_eq_ok_iff.mp accepted with ⟨_, -, areResults⟩
  clear accepted
  induction areResults with
  | nil => simp
  | cons isResult _ ih => exact List.forall_mem_cons.mpr ⟨⟨_, isResult⟩, ih⟩

open Binary64

variable {definition : UnitDefinition} {system : UnitSystem}

theorem UnitRow.isPositive_of_accept {row : UnitRow} (accepted : row.accept = .ok definition) :
    IsPositive definition.unit.scale := by
  unfold accept at accepted
  split at accepted
  · cases accepted
  · split at accepted
    · cases accepted
    · rename_i isPositive
      split at accepted
      · cases accepted
      · cases accepted
        simp only [Bool.not_eq_true, Bool.not_eq_false', Bool.and_eq_true, decide_eq_true_eq]
          at isPositive
        exact ⟨isPositive.1, isPositive.2⟩

namespace UnitSystem

theorem isPositive_of_builtinUnits :
    ∀ definition ∈ builtinUnits, IsPositive definition.unit.scale := by
  have checked : ∀ definition ∈ builtinUnits,
      definition.unit.scale.isFinite = true ∧ 0 < definition.unit.scale := by
    decide +kernel
  exact fun definition member => ⟨(checked definition member).1, (checked definition member).2⟩

/-- The scale of every unit in a unit system of tables is positive. -/
theorem isPositive_of_ofTables {unitTable prefixTable : Option String}
    (isSystem : ofTables unitTable prefixTable = .ok system) :
    ∀ definition ∈ system.units, IsPositive definition.unit.scale := by
  have ofUnits : ∀ units, unitTable.elim (.ok builtinUnits) readUnits = .ok units →
      ∀ definition ∈ units, IsPositive definition.unit.scale := by
    intro units isUnits
    cases unitTable with
    | none =>
        cases isUnits
        exact isPositive_of_builtinUnits
    | some table =>
        intro definition member
        rcases exists_accept_of_acceptRows isUnits definition member with ⟨row, isAccepted⟩
        exact UnitRow.isPositive_of_accept isAccepted
  rcases bind_eq_ok.mp isSystem with ⟨units, isUnits, ofRest⟩
  rcases bind_eq_ok.mp ofRest with ⟨prefixes, _, isResult⟩
  cases isResult
  exact ofUnits units isUnits

end UnitSystem

end Metrology

import Metrology.Proofs.Segmentation.Optimality
import Metrology.UnitSystem.Builtin

/-!
# Base-unit symbols among the built-in units

A dimension is written with the symbols of the base units, and it is read with the whole built-in
tables. This file says which terms a text can begin with when it begins with the symbol of a base
unit and a power: the base unit itself, a centiday where a candela is meant, or a prefix milli where
a meter is meant. Only the tables decide this, so the facts about them are found by going through
their rows.
-/

namespace Metrology.BaseText

open Segmentation UnitSystem

/-- The letters with which the base units other than the meter begin. -/
def initials : List Char :=
  ['g', 's', 'A', 'K', 'c']

/-- The characters that can follow the symbol of a base unit in a written dimension. -/
def following : List Char :=
  '^' :: initials

/-- Whether a text that begins with a base-unit symbol, and goes on as written dimensions do, may
begin with some other symbols as well. -/
def Fits (symbol symbols : List Char) : Prop :=
  symbols <+: symbol ∨ ∃ next ∈ following, symbol ++ [next] <+: symbols

instance (symbol symbols : List Char) : Decidable (Fits symbol symbols) :=
  @instDecidableOr _ _ inferInstance (List.decidableBEx _ following)

/-- Whether a text can follow the symbol of a base unit in a written dimension. -/
def Follows (text : List Char) : Prop :=
  ∀ next ∈ text.head?, next ∈ following

theorem fits_of_isPrefix {symbol symbols text : List Char}
    (isPrefix : symbols <+: symbol ++ text) (follows : Follows text) : Fits symbol symbols := by
  rcases List.prefix_or_prefix_of_prefix isPrefix (List.prefix_append symbol text) with
    within | ⟨extra, rfl⟩
  · exact .inl within
  · cases extra with
    | nil => exact .inl (by simp)
    | cons next others =>
        refine .inr ⟨next, follows next ?_, others, by simp⟩
        rcases (List.prefix_append_right_inj symbol).mp isPrefix with ⟨rest, rfl⟩
        rfl

def unitAt (row : Fin builtin.units.length) : UnitDefinition :=
  builtin.units[row]

def prefixAt (row : Fin builtin.prefixes.length) : MetricPrefix :=
  builtin.prefixes[row]

def baseRow : BaseUnit → Fin builtin.units.length
  | .meter => ⟨0, by decide⟩
  | .gram => ⟨1, by decide⟩
  | .second => ⟨2, by decide⟩
  | .ampere => ⟨3, by decide⟩
  | .kelvin => ⟨4, by decide⟩
  | .candela => ⟨5, by decide⟩

/-- The row of the day, which after the prefix centi looks like a candela. -/
def dayRow : Fin builtin.units.length :=
  ⟨24, by decide⟩

/-- The row of the prefix that looks like a meter. -/
def milliRow : Fin builtin.prefixes.length :=
  ⟨4, by decide⟩

/-- The row of the prefix that looks like the beginning of a candela. -/
def centiRow : Fin builtin.prefixes.length :=
  ⟨5, by decide⟩

@[simp]
theorem abbreviation_baseRow (base : BaseUnit) :
    (unitAt (baseRow base)).abbreviation.toList = base.symbol := by
  cases base <;> rfl

theorem abbreviation_dayRow : (unitAt dayRow).abbreviation.toList = ['d'] :=
  rfl

theorem dimension_baseRow (base : BaseUnit) :
    (unitAt (baseRow base)).unit.dimension = Dimension.ofBase base := by
  cases base <;> rfl

theorem meter_dayRow : (unitAt dayRow).unit.dimension.meter = 0 :=
  rfl

theorem eq_baseRow_of_fits (base : BaseUnit) (row : Fin builtin.units.length)
    (fits : Fits base.symbol (unitAt row).abbreviation.toList) : row = baseRow base := by
  have inTable : (BaseUnit.all.all fun base => (List.finRange builtin.units.length).all fun row =>
      Fits base.symbol (unitAt row).abbreviation.toList → row = baseRow base) = true := by
    decide +kernel
  simp only [List.all_eq_true, decide_eq_true_eq] at inTable
  exact inTable base base.mem_all row (List.mem_finRange row) fits

theorem eq_dayRow_of_fits (row : Fin builtin.units.length)
    (fits : Fits ['d'] (unitAt row).abbreviation.toList) : row = dayRow := by
  have inTable : ((List.finRange builtin.units.length).all fun row =>
      Fits ['d'] (unitAt row).abbreviation.toList → row = dayRow) = true := by
    decide +kernel
  simp only [List.all_eq_true, decide_eq_true_eq] at inTable
  exact inTable row (List.mem_finRange row) fits

theorem prefix_of_symbol (base : BaseUnit) (row : Fin builtin.prefixes.length)
    (isHead : base.symbol.head? = some (prefixAt row).symbol) :
    base = .meter ∧ row = milliRow ∨ base = .candela ∧ row = centiRow := by
  have inTable : (BaseUnit.all.all fun base =>
      (List.finRange builtin.prefixes.length).all fun row =>
        base.symbol.head? = some (prefixAt row).symbol →
          base = .meter ∧ row = milliRow ∨ base = .candela ∧ row = centiRow) = true := by
    decide +kernel
  simp only [List.all_eq_true, decide_eq_true_eq] at inTable
  exact inTable base base.mem_all row (List.mem_finRange row) isHead

theorem exists_head_abbreviation (row : Fin builtin.units.length) :
    ((unitAt row).abbreviation.toList.head?.any fun first => first != '^') = true := by
  have inTable : ((List.finRange builtin.units.length).all fun row =>
      (unitAt row).abbreviation.toList.head?.any fun first => first != '^') = true := by
    decide +kernel
  exact List.all_eq_true.mp inTable row (List.mem_finRange row)

theorem abbreviation_sizes :
    (unitAt dayRow).abbreviation.utf8ByteSize <
      (unitAt (baseRow .candela)).abbreviation.utf8ByteSize := by
  decide

theorem unit_eq (written : WrittenTerm builtin) : written.unit = unitAt written.unitRow :=
  rfl

theorem symbols_eq (written : WrittenTerm builtin) :
    written.symbols = (written.prefixRow.map fun row => (prefixAt row).symbol).toList ++
      (unitAt written.unitRow).abbreviation.toList := by
  rw [WrittenTerm.symbols, WrittenTerm.metricPrefix, Option.map_map]
  rfl

theorem text_ne_nil (written : WrittenTerm builtin) : written.text ≠ [] := by
  intro empty
  have hasHead := exists_head_abbreviation written.unitRow
  simp only [WrittenTerm.text, symbols_eq, List.append_eq_nil_iff] at empty
  simp [empty.1.2] at hasHead

/-- The terms that a base-unit symbol can begin with. -/
theorem rows_of_begins {base : BaseUnit} {text rest : List Char} {written : WrittenTerm builtin}
    (follows : Follows text) (begins : written.Begins (base.symbol ++ text) rest) :
    (written.prefixRow = none ∧ written.unitRow = baseRow base ∧
        written.exponentText ++ rest = text) ∨
      (base = .candela ∧ written.prefixRow = some centiRow ∧ written.unitRow = dayRow ∧
        written.exponentText ++ rest = text) ∨
      (base = .meter ∧ written.prefixRow = some milliRow ∧
        (unitAt written.unitRow).abbreviation.toList ++ (written.exponentText ++ rest) = text) := by
  have same := begins.1
  rw [WrittenTerm.text, symbols_eq] at same
  cases isPrefix : written.prefixRow with
  | none =>
      simp only [isPrefix, Option.map_none, Option.toList_none, List.nil_append,
        List.append_assoc] at same
      have isRow := eq_baseRow_of_fits base written.unitRow
        (fits_of_isPrefix ⟨_, same.symm⟩ follows)
      simp only [isRow, abbreviation_baseRow, List.append_cancel_left_eq] at same
      exact .inl ⟨rfl, isRow, same.symm⟩
  | some row =>
      simp only [isPrefix, Option.map_some, Option.toList_some, List.cons_append, List.nil_append,
        List.append_assoc] at same
      have isHead : base.symbol.head? = some (prefixAt row).symbol := by
        have sameHead := congrArg List.head? same
        cases base <;> exact sameHead
      rcases prefix_of_symbol base row isHead with ⟨rfl, rfl⟩ | ⟨rfl, rfl⟩
      · exact .inr (.inr ⟨rfl, rfl, ((List.cons.injEq _ _ _ _).mp same).2.symm⟩)
      · have sameTail : 'd' :: text =
            (unitAt written.unitRow).abbreviation.toList ++ (written.exponentText ++ rest) :=
          ((List.cons.injEq _ _ _ _).mp same).2
        have isRow := eq_dayRow_of_fits written.unitRow
          (fits_of_isPrefix ⟨_, sameTail.symm⟩ follows)
        simp only [isRow, abbreviation_dayRow, List.cons_append, List.nil_append,
          List.cons.injEq, true_and] at sameTail
        exact .inr (.inl ⟨rfl, rfl, isRow, sameTail.symm⟩)

end Metrology.BaseText

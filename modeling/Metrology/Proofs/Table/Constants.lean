import Mathlib.Data.List.Forall2
import Metrology.Proofs.Constants.Lookup
import Metrology.Proofs.Quantity.Invariant
import Metrology.Proofs.Table.Rows
import Metrology.Table.Constants
import Metrology.UnitSystem.Builtin

/-!
# The constants of a table

A table of constants is refused for a record that cannot be read and for a unit without meaning, and
for nothing else. In what is loaded, an abbreviation stands for the last of its rows. The numbers of
a row are multiplied as they are and never checked afterwards: a constant is finite just if its row
has finite numbers and a unit of finite scale, and no product passes the bound of overflow.
-/

namespace Metrology

open Binary64

namespace ConstantRow

variable {row : ConstantRow} {unit : UnitOfMeasure} {system : UnitSystem} {constant : Constant}

/-- The rows of a table, provided that all of its records can be read. -/
def ofTable? (table : String) : Option (List ConstantRow) :=
  (Table.dataRecords table).mapM ofRecord?

/-- The last row with an abbreviation. -/
def last? (rows : List ConstantRow) (abbreviation : String) : Option ConstantRow :=
  rows.reverse.find? fun row => row.abbreviation == abbreviation

/-- Whether the numbers of a row stay finite on the way to base units: they and the scale of the
unit are finite, and so are all products that are formed of them. -/
structure Fits (row : ConstantRow) (scale : Float) : Prop where
  valueFinite : row.value.isFinite = true
  uncertaintyFinite : row.uncertainty.isFinite = true
  scaleFinite : scale.isFinite = true
  scaledValue : exactMagnitude row.value * exactMagnitude scale < overflowBound
  absolute : exactMagnitude row.uncertainty * exactMagnitude row.value < overflowBound
  scaledAbsolute :
    exactMagnitude (row.uncertainty * row.value) * exactMagnitude scale < overflowBound

/-- The quantity of a row in a unit is finite just if the row fits the scale of the unit. -/
theorem isFinite_iff_fits :
    (Quantity.ofParts .relative .unit row.value row.uncertainty unit).IsFinite ↔
      row.Fits unit.scale := by
  change (Quantity.ofBase (row.value * unit.scale) (row.uncertainty * row.value * unit.scale)
    unit).IsFinite ↔ _
  rw [Quantity.isFinite_ofBase_iff, isFinite_mul_iff, isFinite_mul_iff, isFinite_mul_iff]
  constructor
  · rintro ⟨⟨value, scale, scaledValue⟩, ⟨uncertainty, _, absolute⟩, _, scaledAbsolute⟩
    exact ⟨value, uncertainty, scale, scaledValue, absolute, scaledAbsolute⟩
  · rintro ⟨value, uncertainty, scale, scaledValue, absolute, scaledAbsolute⟩
    exact ⟨⟨value, scale, scaledValue⟩, ⟨uncertainty, value, absolute⟩, scale, scaledAbsolute⟩

/-- A row is accepted just if its unit has a meaning, whatever its numbers are. -/
theorem accept_eq_ok_iff :
    row.accept system = .ok constant ↔
      ∃ unit, system.parse row.unit = .ok unit ∧
        constant = ⟨row.abbreviation, row.name, row.description,
          Quantity.ofParts .relative .unit row.value row.uncertainty unit⟩ := by
  rw [accept]
  cases system.parse row.unit with
  | error _ => simp
  | ok unit => simp [eq_comm]

end ConstantRow

section Related

variable {α β : Type} {relation : α → β → Prop} {left : List α} {right : List β}
  {option : Option α} {other : Option β} {second : β}

theorem isSome_of_rel (related : Option.Rel relation option other) :
    option.isSome = other.isSome := by
  cases related <;> rfl

theorem exists_of_rel_some (related : Option.Rel relation option (some second)) :
    ∃ first, option = some first ∧ relation first second := by
  cases related with
  | some isRelated => exact ⟨_, rfl, isRelated⟩

theorem exists_forall₂_iff :
    (∃ right, List.Forall₂ relation left right) ↔
      ∀ first ∈ left, ∃ second, relation first second := by
  induction left with
  | nil => simp
  | cons first rest ih =>
      rw [List.forall_mem_cons, ← ih]
      constructor
      · rintro ⟨_, _ | ⟨isRelated, related⟩⟩
        exact ⟨⟨_, isRelated⟩, ⟨_, related⟩⟩
      · rintro ⟨⟨second, isRelated⟩, ⟨later, related⟩⟩
        exact ⟨second :: later, .cons isRelated related⟩

/-- What is found in two lists of related members is related, if related members pass their tests
together. -/
theorem rel_find? {leftTest : α → Bool} {rightTest : β → Bool}
    (related : List.Forall₂ relation left right)
    (sameTest : ∀ first second, relation first second → leftTest first = rightTest second) :
    Option.Rel relation (left.find? leftTest) (right.find? rightTest) := by
  induction related with
  | nil => exact .none
  | @cons first second _ _ isRelated _ ih =>
      rw [List.find?_cons, List.find?_cons, sameTest first second isRelated]
      cases rightTest second with
      | true => exact .some isRelated
      | false => exact ih

end Related

namespace Constants

variable {constants : Constants} {system : UnitSystem} {table : String} {rows : List ConstantRow}
  {list : List Constant}

/-- A table is loaded just if its records can be read and all of their rows are accepted. A later
row takes the place of an earlier one with its abbreviation. -/
theorem ofTable_eq_ok_iff :
    ofTable system (some table) = .ok constants ↔
      ∃ rows list, ConstantRow.ofTable? table = some rows ∧
        List.Forall₂ (fun row constant => row.accept system = .ok constant) rows list ∧
        constants = ofList list := by
  constructor
  · intro isTable
    rcases bind_eq_ok.mp isTable with ⟨list, accepted, ⟨⟩⟩
    rcases acceptRows_eq_ok_iff.mp accepted with ⟨rows, areRows, areConstants⟩
    exact ⟨rows, list, areRows, areConstants, rfl⟩
  · rintro ⟨rows, list, areRows, areConstants, rfl⟩
    exact bind_eq_ok.mpr ⟨list, acceptRows_eq_ok_iff.mpr ⟨rows, areRows, areConstants⟩, rfl⟩

theorem exists_ofTable_iff :
    (∃ constants, ofTable system (some table) = .ok constants) ↔
      ∃ rows, ConstantRow.ofTable? table = some rows ∧
        ∀ row ∈ rows, ∃ unit, system.parse row.unit = .ok unit := by
  have isAccepted : ∀ row : ConstantRow, (∃ constant, row.accept system = .ok constant) ↔
      ∃ unit, system.parse row.unit = .ok unit := by
    intro row
    simp only [ConstantRow.accept_eq_ok_iff]
    rw [exists_comm]
    simp
  simp only [ofTable_eq_ok_iff, ← isAccepted, ← exists_forall₂_iff]
  constructor
  · rintro ⟨_, rows, list, areRows, areConstants, _⟩
    exact ⟨rows, areRows, list, areConstants⟩
  · rintro ⟨rows, areRows, list, areConstants⟩
    exact ⟨_, rows, list, areRows, areConstants, rfl⟩

/-- There is a constant under an abbreviation just if there is a row, and the last row counts. -/
theorem rel_last?_find?
    (areConstants : List.Forall₂ (fun row constant => row.accept system = .ok constant) rows list)
    (abbreviation : String) :
    Option.Rel (fun row constant => row.accept system = .ok constant)
      (ConstantRow.last? rows abbreviation) ((ofList list).find? abbreviation) := by
  rw [find?_ofList]
  refine rel_find? (List.rel_reverse areConstants) fun row constant accepted => ?_
  rcases ConstantRow.accept_eq_ok_iff.mp accepted with ⟨_, _, rfl⟩
  rfl

/-- A table is refused only for records that cannot be read and for units without meaning, never for
its numbers. In what is loaded, every abbreviation of the table has a constant, which is that of its
last row, and is finite just if that row fits the scale of its unit. -/
theorem loaded_finite_iff (system : UnitSystem) (table : String) :
    ((∃ constants, ofTable system (some table) = .ok constants) ↔
      ∃ rows, ConstantRow.ofTable? table = some rows ∧
        ∀ row ∈ rows, ∃ unit, system.parse row.unit = .ok unit) ∧
    ∀ constants, ofTable system (some table) = .ok constants →
      ∃ rows, ConstantRow.ofTable? table = some rows ∧
        (∀ row ∈ rows, row.abbreviation ∈ constants.names) ∧
        ∀ constant ∈ constants.entries, ∃ row unit,
          ConstantRow.last? rows constant.abbreviation = some row ∧
          system.parse row.unit = .ok unit ∧
          (constant.quantity.IsFinite ↔ row.Fits unit.scale) := by
  refine ⟨exists_ofTable_iff, fun constants isTable => ?_⟩
  rcases ofTable_eq_ok_iff.mp isTable with ⟨rows, list, areRows, areConstants, rfl⟩
  have related := rel_last?_find? areConstants
  refine ⟨rows, areRows, fun row member => ?_, fun constant member => ?_⟩
  · have isSome : (ConstantRow.last? rows row.abbreviation).isSome = true :=
      List.find?_isSome.mpr ⟨row, List.mem_reverse.mpr member, beq_self_eq_true _⟩
    rw [isSome_of_rel (related row.abbreviation), find?_eq, List.find?_isSome] at isSome
    rcases isSome with ⟨constant, member, isNamed⟩
    exact List.mem_map.mpr ⟨constant, member, eq_of_beq isNamed⟩
  · have isLast := related constant.abbreviation
    rw [find?_of_mem member] at isLast
    rcases exists_of_rel_some isLast with ⟨row, isRow, accepted⟩
    rcases ConstantRow.accept_eq_ok_iff.mp accepted with ⟨unit, isUnit, isConstant⟩
    refine ⟨row, unit, isRow, isUnit, ?_⟩
    rw [isConstant]
    exact ConstantRow.isFinite_iff_fits

/-- A table with the radius of the earth in kilometers. -/
def earth : String :=
  "abbrev,name,description,value,uncertainty,unit\nR_E,Earth radius,Mean radius,6371,0.001,km\n"

theorem loaded_finite_iff_earth :
    ∃ constants, ofTable .builtin (some earth) = .ok constants ∧ constants.names = ["R_E"] ∧
      ∀ constant ∈ constants.entries, constant.quantity.IsFinite ∧
        ∃ row : ConstantRow, ∃ unit, UnitSystem.builtin.parse row.unit = .ok unit ∧
          row.Fits unit.scale := by
  have isLoaded : (ofTable .builtin (some earth)).toOption.any (fun constants =>
      constants.names == ["R_E"] && constants.entries.all fun constant =>
        constant.quantity.value.isFinite && constant.quantity.uncertainty.isFinite) = true := by
    decide +kernel
  rcases exists_ok_of_any isLoaded with ⟨constants, isTable, isRadius⟩
  rw [Bool.and_eq_true, List.all_eq_true] at isRadius
  rcases (loaded_finite_iff .builtin earth).2 constants isTable with ⟨rows, _, _, ofRows⟩
  refine ⟨constants, isTable, eq_of_beq isRadius.1, fun constant member => ?_⟩
  have finite : constant.quantity.IsFinite := by
    have both := isRadius.2 constant member
    rw [Bool.and_eq_true] at both
    exact ⟨both.1, both.2⟩
  rcases ofRows constant member with ⟨row, unit, _, isUnit, finiteIff⟩
  exact ⟨finite, row, unit, isUnit, finiteIff.mp finite⟩

/-- A table with an infinite value, an uncertainty that is no number, a value that overflows in
meters, and a zero in a unit with an infinite scale. -/
def unbounded : String :=
  "abbrev,name,description,value,uncertainty,unit\n" ++
    "a,A,infinite,inf,0,m\nb,B,undefined,1,nan,m\nc,C,overflow,1e308,0,km\nd,D,scale,0,0,Tm^99\n"

/-- A table is loaded although none of its constants is finite. -/
theorem not_loaded_finite :
    UnitSystem.ofTables none none = .ok .builtin ∧
      ∃ constants, ofTable .builtin (some unbounded) = .ok constants ∧
        constants.names = ["a", "b", "c", "d"] ∧
        ∀ constant ∈ constants.entries, ¬constant.quantity.IsFinite := by
  have isLoaded : (ofTable .builtin (some unbounded)).toOption.any (fun constants =>
      constants.names == ["a", "b", "c", "d"] && constants.entries.all fun constant =>
        !constant.quantity.value.isFinite || !constant.quantity.uncertainty.isFinite) = true := by
    decide +kernel
  rcases exists_ok_of_any isLoaded with ⟨constants, isTable, noneFinite⟩
  rw [Bool.and_eq_true, List.all_eq_true] at noneFinite
  refine ⟨rfl, constants, isTable, eq_of_beq noneFinite.1, fun constant member finite => ?_⟩
  have notBoth := noneFinite.2 constant member
  rw [finite.value, finite.uncertainty] at notBoth
  cases notBoth

end Constants

end Metrology

import Metrology.Proofs.Table.Rows

/-!
# Loading a unit system

Two tables make a unit system just if all of their records can be read and all of their rows are
valid, and then it consists of the rows of both in their order. Else the first faulty record of the
units decides, and the prefixes are looked at only where there is none. Nothing that comes after a
faulty record has any influence.
-/

namespace Metrology

namespace Table

section FirstFault

variable {Row Result : Type} {read? : Record → Option Row}
  {accept : Row → Except RowFault Result} {IsValid : Row → Prop}
  {HasFault : Row → RowFault → Prop} {line index : Nat} {record : Record}
  {records rest others : List Record} {error : TableError}

/-- Whether every record can be read and is a valid row. -/
def IsFaultless (read? : Record → Option Row) (IsValid : Row → Prop) (records : List Record) :
    Prop :=
  ∀ record ∈ records, ∃ row, read? record = some row ∧ IsValid row

/-- What is reported of a faulty record. Only where a row was read there is a line to report. -/
inductive Reports (read? : Record → Option Row) (HasFault : Row → RowFault → Prop) (line : Nat)
    (record : Record) : TableError → Prop where
  | unreadable (unread : read? record = none) : Reports read? HasFault line record .unreadable
  | row {row : Row} {fault : RowFault} (isRow : read? record = some row)
      (hasFault : HasFault row fault) : Reports read? HasFault line record (.invalidRow line fault)

/-- Whether a record is the first faulty one and what is reported of it. The records are counted
from zero, and `line` is the line of the first. -/
structure FirstFault (read? : Record → Option Row) (IsValid : Row → Prop)
    (HasFault : Row → RowFault → Prop) (line : Nat) (records : List Record) (index : Nat)
    (error : TableError) : Prop where
  earlier : IsFaultless read? IsValid (records.take index)
  reported : ∃ record, records[index]? = some record ∧
    Reports read? HasFault (line + index) record error

theorem firstFault_zero_iff :
    FirstFault read? IsValid HasFault line (record :: rest) 0 error ↔
      Reports read? HasFault line record error := by
  constructor
  · rintro ⟨-, other, isOther, reports⟩
    cases isOther
    exact reports
  · intro reports
    exact ⟨by simp [IsFaultless], record, rfl, reports⟩

theorem firstFault_succ_iff :
    FirstFault read? IsValid HasFault line (record :: rest) (index + 1) error ↔
      (∃ row, read? record = some row ∧ IsValid row) ∧
        FirstFault read? IsValid HasFault (line + 1) rest index error := by
  have sameLine : line + (index + 1) = line + 1 + index := by omega
  constructor
  · rintro ⟨earlier, other, isOther, reports⟩
    rw [List.take_succ_cons, IsFaultless, List.forall_mem_cons] at earlier
    exact ⟨earlier.1, earlier.2, other, isOther, sameLine ▸ reports⟩
  · rintro ⟨isFirst, earlier, other, isOther, reports⟩
    refine ⟨?_, other, isOther, sameLine ▸ reports⟩
    rw [List.take_succ_cons, IsFaultless, List.forall_mem_cons]
    exact ⟨isFirst, earlier⟩

/-- The records that come after a first faulty one do not matter. -/
theorem FirstFault.of_take (first : FirstFault read? IsValid HasFault line records index error)
    (same : others.take (index + 1) = records.take (index + 1)) :
    FirstFault read? IsValid HasFault line others index error := by
  have sameEarlier : others.take index = records.take index := by
    have taken := congrArg (List.take index) same
    rwa [List.take_take, List.take_take, Nat.min_eq_left (Nat.le_succ index)] at taken
  have sameRecord : others[index]? = records[index]? := by
    have found := congrArg (·[index]?) same
    simpa using found
  rcases first with ⟨earlier, reported⟩
  refine ⟨?_, ?_⟩
  · rw [sameEarlier]
    exact earlier
  · rw [sameRecord]
    exact reported

/-- What the check of a row says of rows that are valid and of rows that have a fault. -/
structure Checks (accept : Row → Except RowFault Result) (IsValid : Row → Prop)
    (HasFault : Row → RowFault → Prop) : Prop where
  valid_iff : ∀ row, IsValid row ↔ ∃ result, accept row = .ok result
  hasFault_iff : ∀ row fault, HasFault row fault ↔ accept row = .error fault

theorem Checks.of_cases (ofValid : ∀ row, IsValid row → ∃ result, accept row = .ok result)
    (ofFault : ∀ row fault, HasFault row fault → accept row = .error fault)
    (total : ∀ row, IsValid row ∨ ∃ fault, HasFault row fault) :
    Checks accept IsValid HasFault where
  valid_iff := by
    intro row
    refine ⟨ofValid row, fun ⟨result, isResult⟩ => ?_⟩
    rcases total row with valid | ⟨fault, hasFault⟩
    · exact valid
    · cases isResult.symm.trans (ofFault row fault hasFault)
  hasFault_iff := by
    intro row fault
    refine ⟨ofFault row fault, fun isFault => ?_⟩
    rcases total row with valid | ⟨other, hasOther⟩
    · rcases ofValid row valid with ⟨result, isResult⟩
      cases isFault.symm.trans isResult
    · cases isFault.symm.trans (ofFault row other hasOther)
      exact hasOther

/-- A first record is reported, or it is a valid row and the table fails after it. -/
theorem Checks.acceptRows_cons_eq_error_iff (checks : Checks accept IsValid HasFault) :
    acceptRows read? accept line (record :: rest) = .error error ↔
      Reports read? HasFault line record error ∨
        (∃ row, read? record = some row ∧ IsValid row) ∧
          acceptRows read? accept (line + 1) rest = .error error := by
  rw [acceptRows]
  constructor
  · intro isError
    split at isError
    · rename_i unread
      cases isError
      exact .inl (.unreadable unread)
    · rename_i row isRow
      split at isError
      · rename_i fault isFault
        cases isError
        exact .inl (.row isRow ((checks.hasFault_iff row fault).mpr isFault))
      · rename_i result isResult
        refine .inr ⟨⟨row, isRow, (checks.valid_iff row).mpr ⟨result, isResult⟩⟩, ?_⟩
        cases isRest : acceptRows read? accept (line + 1) rest with
        | error _ =>
            rw [isRest] at isError
            exact isError
        | ok _ =>
            rw [isRest] at isError
            cases isError
  · rintro (reports | ⟨⟨row, isRow, valid⟩, isRest⟩)
    · cases reports with
      | unreadable unread => simp only [unread]
      | row isRow hasFault => simp only [isRow, (checks.hasFault_iff _ _).mp hasFault]
    · rcases (checks.valid_iff row).mp valid with ⟨result, isResult⟩
      simp only [isRow, isResult, isRest]
      rfl

theorem Checks.acceptRows_eq_error_iff (checks : Checks accept IsValid HasFault) :
    acceptRows read? accept line records = .error error ↔
      ∃ index, FirstFault read? IsValid HasFault line records index error := by
  induction records generalizing line with
  | nil =>
      constructor
      · intro isError
        cases isError
      · rintro ⟨index, _, record, isRecord, _⟩
        cases isRecord
  | cons record rest ih =>
      rw [checks.acceptRows_cons_eq_error_iff, ih]
      constructor
      · rintro (reports | ⟨isFirst, index, first⟩)
        · exact ⟨0, firstFault_zero_iff.mpr reports⟩
        · exact ⟨index + 1, firstFault_succ_iff.mpr ⟨isFirst, first⟩⟩
      · rintro ⟨_ | index, first⟩
        · exact .inl (firstFault_zero_iff.mp first)
        · rcases firstFault_succ_iff.mp first with ⟨isFirst, isRest⟩
          exact .inr ⟨isFirst, index, isRest⟩

/-- The rows of a table are accepted just if none of its records is faulty. -/
theorem Checks.exists_acceptRows_iff (checks : Checks accept IsValid HasFault) :
    (∃ results, acceptRows read? accept line records = .ok results) ↔
      IsFaultless read? IsValid records := by
  induction records generalizing line with
  | nil => exact ⟨fun _ => by simp [IsFaultless], fun _ => ⟨[], rfl⟩⟩
  | cons record rest ih =>
      have laterRows := @ih (line + 1)
      rw [IsFaultless, List.forall_mem_cons, ← IsFaultless, ← laterRows]
      simp only [acceptRows_cons_eq_ok_iff, checks.valid_iff]
      constructor
      · rintro ⟨_, row, result, later, isRow, isResult, isRest, rfl⟩
        exact ⟨⟨row, isRow, result, isResult⟩, later, isRest⟩
      · rintro ⟨⟨row, isRow, result, isResult⟩, later, isRest⟩
        exact ⟨result :: later, row, result, later, isRow, isResult, isRest, rfl⟩

end FirstFault

end Table

namespace UnitRow

variable {row : UnitRow} {fault : RowFault}

/-- What is asked of the row of a unit. -/
structure IsValid (row : UnitRow) : Prop where
  named : row.abbreviation ≠ ""
  positive : Binary64.IsPositive row.scale
  flagged : row.standard ∈ ["T", "t", "F", "f", ""]

/-- What is wrong with the row of a unit: the first of the things asked of it that it lacks. -/
inductive HasFault (row : UnitRow) : RowFault → Prop where
  | emptyAbbreviation (unnamed : row.abbreviation = "") : HasFault row .emptyAbbreviation
  | scaleNotPositive (named : row.abbreviation ≠ "")
      (notPositive : ¬Binary64.IsPositive row.scale) :
      HasFault row (.scaleNotPositive row.abbreviation)
  | standardFlag (named : row.abbreviation ≠ "") (positive : Binary64.IsPositive row.scale)
      (unflagged : row.standard ∉ ["T", "t", "F", "f", ""]) :
      HasFault row (.standardFlag row.standard)

/-- The unit that a valid row defines. -/
def definition (row : UnitRow) : UnitDefinition where
  abbreviation := row.abbreviation
  name := row.name
  description := row.description
  unit := ⟨row.dimension, row.scale⟩
  standard := decide (row.standard ∈ ["T", "t"])

theorem isValid_or_hasFault (row : UnitRow) : row.IsValid ∨ ∃ fault, row.HasFault fault := by
  by_cases unnamed : row.abbreviation = ""
  · exact .inr ⟨_, .emptyAbbreviation unnamed⟩
  · by_cases positive : Binary64.IsPositive row.scale
    · by_cases flagged : row.standard ∈ ["T", "t", "F", "f", ""]
      · exact .inl ⟨unnamed, positive, flagged⟩
      · exact .inr ⟨_, .standardFlag unnamed positive flagged⟩
    · exact .inr ⟨_, .scaleNotPositive unnamed positive⟩

theorem readFlag?_of_mem {written : String} (flagged : written ∈ ["T", "t", "F", "f", ""]) :
    readFlag? written = some (decide (written ∈ ["T", "t"])) := by
  simp only [List.mem_cons, List.not_mem_nil, or_false] at flagged
  rcases flagged with rfl | rfl | rfl | rfl | rfl <;> decide

theorem readFlag?_of_notMem {written : String}
    (unflagged : written ∉ ["T", "t", "F", "f", ""]) : readFlag? written = none := by
  simp only [List.mem_cons, List.not_mem_nil, or_false, not_or] at unflagged
  simp [readFlag?, unflagged]

theorem isPositive_iff_check :
    Binary64.IsPositive row.scale ↔ (row.scale.isFinite && decide (0 < row.scale)) = true := by
  rw [Bool.and_eq_true, decide_eq_true_eq]
  exact ⟨fun positive => ⟨positive.isFinite, positive.zero_lt⟩, fun both => ⟨both.1, both.2⟩⟩

theorem accept_of_hasFault (hasFault : row.HasFault fault) : row.accept = .error fault := by
  cases hasFault with
  | emptyAbbreviation unnamed =>
      rw [accept, unnamed]
      rfl
  | scaleNotPositive named notPositive =>
      rw [isPositive_iff_check, Bool.not_eq_true] at notPositive
      simp [accept, named, notPositive]
  | standardFlag named positive unflagged =>
      rw [isPositive_iff_check] at positive
      simp [accept, named, positive, readFlag?_of_notMem unflagged]

theorem accept_of_isValid (valid : row.IsValid) : row.accept = .ok row.definition := by
  have positive := isPositive_iff_check.mp valid.positive
  simp [accept, valid.named, positive, readFlag?_of_mem valid.flagged, definition]

theorem eq_definition_of_accept {definition : UnitDefinition}
    (accepted : row.accept = .ok definition) : row.definition = definition := by
  rcases row.isValid_or_hasFault with valid | ⟨fault, hasFault⟩
  · rw [accept_of_isValid valid, Except.ok.injEq] at accepted
    exact accepted
  · cases accepted.symm.trans (accept_of_hasFault hasFault)

/-- Whether every record of a table of units is a valid row. -/
def IsFaultless (table : String) : Prop :=
  Table.IsFaultless ofRecord? IsValid (Table.dataRecords table)

/-- The first faulty record of a table of units, and its error. -/
def FirstFault (table : String) : Nat → TableError → Prop :=
  Table.FirstFault ofRecord? IsValid HasFault 2 (Table.dataRecords table)

theorem checks : Table.Checks accept IsValid HasFault :=
  .of_cases (fun row valid => ⟨row.definition, accept_of_isValid valid⟩)
    (fun _ _ => accept_of_hasFault) isValid_or_hasFault

end UnitRow

namespace PrefixRow

variable {row : PrefixRow} {fault : RowFault}

/-- What is asked of the row of a prefix: its symbol is one character. -/
def IsValid (row : PrefixRow) : Prop :=
  ∃ symbol : Char, row.symbol = String.singleton symbol

inductive HasFault (row : PrefixRow) : RowFault → Prop where
  | prefixSymbol (notOne : ¬row.IsValid) : HasFault row (.prefixSymbol row.symbol)

/-- The row that a prefix is read from. -/
def ofPrefix (metricPrefix : MetricPrefix) : PrefixRow where
  symbol := String.singleton metricPrefix.symbol
  name := metricPrefix.name
  power := metricPrefix.power

/-- Whether every record of a table of prefixes is a valid row. -/
def IsFaultless (table : String) : Prop :=
  Table.IsFaultless ofRecord? IsValid (Table.dataRecords table)

/-- The first faulty record of a table of prefixes, and its error. -/
def FirstFault (table : String) : Nat → TableError → Prop :=
  Table.FirstFault ofRecord? IsValid HasFault 2 (Table.dataRecords table)

theorem accept_of_hasFault (hasFault : row.HasFault fault) : row.accept = .error fault := by
  rcases hasFault with ⟨notOne⟩
  unfold accept
  split
  · rename_i symbol isSymbol
    refine absurd ⟨symbol, ?_⟩ notOne
    rw [← String.toList_inj, isSymbol, String.toList_singleton]
  · rfl

theorem eq_ofPrefix_of_accept {metricPrefix : MetricPrefix}
    (accepted : row.accept = .ok metricPrefix) : row = ofPrefix metricPrefix := by
  unfold accept at accepted
  split at accepted
  · rename_i symbol isSymbol
    cases accepted
    have isText : row.symbol = String.singleton symbol := by
      rw [← String.toList_inj, isSymbol, String.toList_singleton]
    rw [ofPrefix, ← isText]
  · cases accepted

theorem checks : Table.Checks accept IsValid HasFault := by
  refine .of_cases ?_ (fun _ _ => accept_of_hasFault) fun row => ?_
  · rintro row ⟨symbol, isSymbol⟩
    refine ⟨⟨symbol, row.name, row.power⟩, ?_⟩
    simp [accept, isSymbol]
  · by_cases valid : row.IsValid
    · exact .inl valid
    · exact .inr ⟨_, .prefixSymbol valid⟩

end PrefixRow

namespace UnitSystem

variable {system : UnitSystem} {unitTable prefixTable : String} {units : List UnitDefinition}
  {prefixes : List MetricPrefix} {error : TableError}

theorem ofTables_eq_ok_iff :
    ofTables (some unitTable) (some prefixTable) = .ok system ↔
      ∃ units prefixes, readUnits unitTable = .ok units ∧ readPrefixes prefixTable = .ok prefixes ∧
        system = new units prefixes := by
  constructor
  · intro isSystem
    rcases bind_eq_ok.mp isSystem with ⟨units, areUnits, ofPrefixes⟩
    rcases bind_eq_ok.mp ofPrefixes with ⟨prefixes, arePrefixes, ⟨⟩⟩
    exact ⟨units, prefixes, areUnits, arePrefixes, rfl⟩
  · rintro ⟨units, prefixes, areUnits, arePrefixes, rfl⟩
    exact bind_eq_ok.mpr ⟨units, areUnits, bind_eq_ok.mpr ⟨prefixes, arePrefixes, rfl⟩⟩

/-- The table of units is read first, and that of prefixes only where it is without fault. -/
theorem ofTables_eq_error_iff :
    ofTables (some unitTable) (some prefixTable) = .error error ↔
      readUnits unitTable = .error error ∨
        (∃ units, readUnits unitTable = .ok units) ∧ readPrefixes prefixTable = .error error := by
  change (readUnits unitTable >>= fun units => readPrefixes prefixTable >>= fun prefixes =>
    pure (new units prefixes)) = _ ↔ _
  cases readUnits unitTable with
  | error _ => simp [bind, Except.bind]
  | ok units => cases readPrefixes prefixTable <;> simp [bind, Except.bind, pure, Except.pure]

theorem exists_readUnits_iff :
    (∃ units, readUnits unitTable = .ok units) ↔ UnitRow.IsFaultless unitTable :=
  UnitRow.checks.exists_acceptRows_iff

theorem exists_readPrefixes_iff :
    (∃ prefixes, readPrefixes prefixTable = .ok prefixes) ↔ PrefixRow.IsFaultless prefixTable :=
  PrefixRow.checks.exists_acceptRows_iff

/-- The units of a table are those that its rows define, in order. -/
theorem exists_rows_of_readUnits (areUnits : readUnits unitTable = .ok units) :
    ∃ rows, (Table.dataRecords unitTable).mapM UnitRow.ofRecord? = some rows ∧
      units = rows.map UnitRow.definition := by
  rcases acceptRows_eq_ok_iff.mp areUnits with ⟨rows, areRows, accepted⟩
  have defined : List.Forall₂ (· = ·) (rows.map UnitRow.definition) units :=
    List.forall₂_map_left_iff.mpr (accepted.imp fun _ _ => UnitRow.eq_definition_of_accept)
  rw [List.forall₂_eq_eq_eq] at defined
  exact ⟨rows, areRows, defined.symm⟩

/-- The prefixes of a table have its rows, in order. -/
theorem mapM_of_readPrefixes (arePrefixes : readPrefixes prefixTable = .ok prefixes) :
    (Table.dataRecords prefixTable).mapM PrefixRow.ofRecord? =
      some (prefixes.map PrefixRow.ofPrefix) := by
  rcases acceptRows_eq_ok_iff.mp arePrefixes with ⟨rows, areRows, accepted⟩
  have written : List.Forall₂ (· = ·) rows (prefixes.map PrefixRow.ofPrefix) :=
    List.forall₂_map_right_iff.mpr (accepted.imp fun _ _ => PrefixRow.eq_ofPrefix_of_accept)
  rw [List.forall₂_eq_eq_eq] at written
  rw [areRows, written]

/-- Loading is all or nothing and reports the first fault. Two tables make a unit system just if
every record of both can be read, every row of a unit is named, has a finite positive scale and one
of the flags, and every prefix is one character; the units and prefixes are then the rows of the
tables in their order. Else the error is that of the first faulty record of the units, or, where
these have no fault, of the prefixes. Whatever the tables hold after that record, and for a fault of
the units whatever the prefixes are, the error is the same. -/
theorem tables_all_or_nothing (unitTable prefixTable : String) :
    ((∃ system, ofTables (some unitTable) (some prefixTable) = .ok system) ↔
      UnitRow.IsFaultless unitTable ∧ PrefixRow.IsFaultless prefixTable) ∧
    (∀ system, ofTables (some unitTable) (some prefixTable) = .ok system →
      ∃ rows, (Table.dataRecords unitTable).mapM UnitRow.ofRecord? = some rows ∧
        system.units = rows.map UnitRow.definition ∧
        (Table.dataRecords prefixTable).mapM PrefixRow.ofRecord? =
          some (system.prefixes.map PrefixRow.ofPrefix)) ∧
    (∀ error, ofTables (some unitTable) (some prefixTable) = .error error ↔
      (∃ index, UnitRow.FirstFault unitTable index error) ∨
        UnitRow.IsFaultless unitTable ∧ ∃ index, PrefixRow.FirstFault prefixTable index error) ∧
    (∀ index error, UnitRow.FirstFault unitTable index error →
      ∀ otherUnits otherPrefixes,
        (Table.dataRecords otherUnits).take (index + 1) =
          (Table.dataRecords unitTable).take (index + 1) →
        ofTables (some otherUnits) (some otherPrefixes) = .error error) ∧
    ∀ index error, UnitRow.IsFaultless unitTable → PrefixRow.FirstFault prefixTable index error →
      ∀ otherPrefixes,
        (Table.dataRecords otherPrefixes).take (index + 1) =
          (Table.dataRecords prefixTable).take (index + 1) →
        ofTables (some unitTable) (some otherPrefixes) = .error error := by
  have failsIff : ∀ {units prefixes : String} {error : TableError},
      ofTables (some units) (some prefixes) = .error error ↔
        (∃ index, UnitRow.FirstFault units index error) ∨
          UnitRow.IsFaultless units ∧ ∃ index, PrefixRow.FirstFault prefixes index error := by
    intro units prefixes error
    rw [ofTables_eq_error_iff, exists_readUnits_iff, readUnits, readPrefixes,
      UnitRow.checks.acceptRows_eq_error_iff, PrefixRow.checks.acceptRows_eq_error_iff]
    rfl
  refine ⟨?_, fun system isSystem => ?_, fun error => failsIff, ?_, ?_⟩
  · rw [← exists_readUnits_iff, ← exists_readPrefixes_iff]
    simp only [ofTables_eq_ok_iff]
    constructor
    · rintro ⟨_, units, prefixes, areUnits, arePrefixes, _⟩
      exact ⟨⟨units, areUnits⟩, ⟨prefixes, arePrefixes⟩⟩
    · rintro ⟨⟨units, areUnits⟩, ⟨prefixes, arePrefixes⟩⟩
      exact ⟨_, units, prefixes, areUnits, arePrefixes, rfl⟩
  · rcases ofTables_eq_ok_iff.mp isSystem with ⟨units, prefixes, areUnits, arePrefixes, rfl⟩
    rcases exists_rows_of_readUnits areUnits with ⟨rows, areRows, defined⟩
    exact ⟨rows, areRows, defined, mapM_of_readPrefixes arePrefixes⟩
  · intro index error first otherUnits otherPrefixes same
    exact failsIff.mpr (.inl ⟨index, Table.FirstFault.of_take first same⟩)
  · intro index error faultless first otherPrefixes same
    exact failsIff.mpr (.inr ⟨faultless, index, Table.FirstFault.of_take first same⟩)

/-- A table whose third prefix has two characters for its symbol. -/
def doubledSymbol : String :=
  "symbol,name,power\nk,kilo,3\nk,kilo,3\nkk,double kilo,6\n"

/-- The third prefix is reported, which stands on line four, and the one before it is not, which
repeats the first. -/
theorem tables_all_or_nothing_doubled :
    ofTables (some "") (some doubledSymbol) = .error (.invalidRow 4 (.prefixSymbol "kk")) ∧
      ∃ index, PrefixRow.FirstFault doubledSymbol index
        (.invalidRow 4 (.prefixSymbol "kk")) := by
  have computed : (match ofTables (some "") (some doubledSymbol) with
      | .ok _ => false
      | .error error => error == .invalidRow 4 (.prefixSymbol "kk")) = true := by
    decide +kernel
  have isError : ofTables (some "") (some doubledSymbol) =
      .error (.invalidRow 4 (.prefixSymbol "kk")) := by
    split at computed
    · cases computed
    · rename_i error failed
      rw [failed, eq_of_beq computed]
  refine ⟨isError, ?_⟩
  rcases ((tables_all_or_nothing "" doubledSymbol).2.2.1 _).mp isError with
    ⟨index, _, record, isRecord, _⟩ | ⟨_, first⟩
  · have noRecords : Table.dataRecords "" = [] := by decide
    rw [noRecords] at isRecord
    cases isRecord
  · exact first

end UnitSystem

end Metrology

import Mathlib.Data.Finset.Dedup
import Metrology.Proofs.Table.Constants

/-!
# Constants as a map in order of insertion

Whatever is inserted into constants one after another, they hold each abbreviation once, where it
was inserted first, with the constant that was inserted last. The index leads to every entry and to
nothing else. The constants of a table are such a map of its rows.
-/

namespace Metrology.Constants

variable {constants : Constants} {constant : Constant} {inserted : List Constant}
  {abbreviation : String} {position : Nat}

/-- Whether a constant is the last one that is inserted under an abbreviation. -/
def IsLast (inserted : List Constant) (abbreviation : String) (constant : Constant) : Prop :=
  constant.abbreviation = abbreviation ∧ ∃ before after, inserted = before ++ constant :: after ∧
    ∀ later ∈ after, later.abbreviation ≠ abbreviation

/-- Whether constants are the map that insertions one after another make from nothing. -/
structure IsMapOf (constants : Constants) (inserted : List Constant) : Prop where
  nodup : constants.names.Nodup
  /-- The abbreviations stand in the order of their first insertions. -/
  names_eq : constants.names = (inserted.map Constant.abbreviation).eraseDups
  size_eq : constants.size = (inserted.map Constant.abbreviation).toFinset.card
  reached : ∀ constant ∈ constants.entries,
    constants.find? constant.abbreviation = some constant
  /-- Under an abbreviation that was inserted stands the last constant inserted under it. -/
  found : ∀ abbreviation ∈ inserted.map Constant.abbreviation,
    constants.contains abbreviation = true ∧ ∃ constant, IsLast inserted abbreviation constant ∧
      constants.find? abbreviation = some constant ∧
      constants.get? abbreviation = some constant.quantity
  notFound : ∀ abbreviation ∉ inserted.map Constant.abbreviation,
    constants.contains abbreviation = false ∧ constants.find? abbreviation = none ∧
      constants.get? abbreviation = none
  /-- The index leads to the entry with the abbreviation, and never out of range. -/
  index_iff : ∀ abbreviation position, constants.index[abbreviation]? = some position ↔
    ∃ inRange : position < constants.entries.length,
      constants.entries[position].abbreviation = abbreviation

theorem eraseDups_concat (names : List String) (last : String) :
    (names ++ [last]).eraseDups =
      if last ∈ names then names.eraseDups else names.eraseDups ++ [last] := by
  rw [List.eraseDups_append, List.removeAll]
  by_cases again : last ∈ names
  · simp [again]
  · simp [again, List.eraseDups_cons]

theorem names_ofList (inserted : List Constant) :
    (ofList inserted).names = (inserted.map Constant.abbreviation).eraseDups := by
  induction inserted using List.reverseRecOn with
  | nil => rfl
  | append_singleton inserted last ih =>
      rw [ofList_concat, names_insert, ih, List.map_append, List.map_singleton, eraseDups_concat]
      simp only [List.mem_eraseDups]

theorem mem_names_ofList :
    abbreviation ∈ (ofList inserted).names ↔
      abbreviation ∈ inserted.map Constant.abbreviation := by
  rw [names_ofList, List.mem_eraseDups]

theorem isLast_of_find?_ofList (found : (ofList inserted).find? abbreviation = some constant) :
    IsLast inserted abbreviation constant := by
  rw [find?_ofList, List.find?_eq_some_iff_append] at found
  rcases found with ⟨isNamed, after, before, isReverse, others⟩
  refine ⟨eq_of_beq isNamed, before.reverse, after.reverse, ?_, fun later member => ?_⟩
  · rw [← List.reverse_reverse inserted, isReverse]
    simp
  · simpa using others later (List.mem_reverse.mp member)

theorem isMapOf_ofList (inserted : List Constant) : (ofList inserted).IsMapOf inserted where
  nodup := (ofList inserted).nodup_names
  names_eq := names_ofList inserted
  size_eq := by
    have sameMembers : (inserted.map Constant.abbreviation).toFinset =
        (ofList inserted).names.toFinset := by
      ext abbreviation
      rw [List.mem_toFinset, List.mem_toFinset, mem_names_ofList]
    rw [sameMembers, List.toFinset_card_of_nodup (nodup_names _), names, List.length_map]
    rfl
  reached := fun _ => find?_of_mem
  found := by
    intro abbreviation member
    have isName := mem_names_ofList.mpr member
    rcases List.mem_map.mp isName with ⟨constant, isEntry, rfl⟩
    have isFound := find?_of_mem isEntry
    refine ⟨contains_iff.mpr isName, constant, isLast_of_find?_ofList isFound, isFound, ?_⟩
    rw [get?, isFound]
    rfl
  notFound := by
    intro abbreviation notMember
    have notContained : (ofList inserted).contains abbreviation = false := by
      rw [← Bool.not_eq_true, contains_iff, mem_names_ofList]
      exact notMember
    exact ⟨notContained, find?_eq_none notContained, get?_eq_none notContained⟩
  index_iff := by
    intro abbreviation position
    simp [(ofList inserted).indexed, List.getElem?_eq_some_iff]

/-- What loads was read as rows, accepted row by row and inserted in their order. -/
theorem exists_rows_of_ofTable {system : UnitSystem} {table : Option String}
    (isTable : ofTable system table = .ok constants) :
    ∃ rows inserted, table.elim (some ConstantRow.builtin) ConstantRow.ofTable? = some rows ∧
      List.Forall₂ (fun row constant => row.accept system = .ok constant) rows inserted ∧
      constants = ofList inserted := by
  cases table with
  | some text => exact ofTable_eq_ok_iff.mp isTable
  | none =>
      rcases bind_eq_ok.mp isTable with ⟨inserted, accepted, ⟨⟩⟩
      rcases acceptRows_eq_ok_iff.mp accepted with ⟨rows, areRows, areConstants⟩
      have isBuiltin : ConstantRow.builtin.mapM some = some ConstantRow.builtin := by
        simpa using List.mapM_pure (m := Option) (f := id) (l := ConstantRow.builtin)
      exact ⟨rows, inserted, isBuiltin.symm.trans areRows, areConstants, rfl⟩

/-- Constants are a map in order of insertion. Whatever is inserted one after another into none, the
abbreviations stand in the order of their first insertions, each is looked up as the constant that
was inserted last under it, and the index leads to the entries and nowhere else. A further insertion
replaces the entry of an abbreviation that is there and changes no other entry and no position, and
it adds an entry behind the others for one that is not. The constants of every table that loads are
such a map of its rows in their order. -/
theorem insertion_ordered :
    (∀ inserted, (ofList inserted).IsMapOf inserted) ∧
    (∀ inserted constant,
      (constant.abbreviation ∈ inserted.map Constant.abbreviation →
        ∃ position, (ofList inserted).index[constant.abbreviation]? = some position ∧
          ((ofList inserted).insert constant).entries =
            (ofList inserted).entries.set position constant ∧
          ((ofList inserted).insert constant).index = (ofList inserted).index) ∧
      (constant.abbreviation ∉ inserted.map Constant.abbreviation →
        ((ofList inserted).insert constant).entries = (ofList inserted).entries ++ [constant])) ∧
    ∀ (system : UnitSystem) (table : Option String) (constants : Constants),
      ofTable system table = .ok constants →
      ∃ rows inserted, table.elim (some ConstantRow.builtin) ConstantRow.ofTable? = some rows ∧
        List.Forall₂ (fun row constant => row.accept system = .ok constant) rows inserted ∧
        constants.IsMapOf inserted := by
  refine ⟨isMapOf_ofList, fun inserted constant => ⟨fun again => ?_, fun isNew => ?_⟩,
    fun system table constants isTable => ?_⟩
  · have isName := contains_iff.mpr (mem_names_ofList.mpr again)
    rcases Option.isSome_iff_exists.mp isName with ⟨position, found⟩
    refine ⟨position, found, ?_, ?_⟩
    · rw [insert_of_position? found, replace]
    · rw [insert_of_position? found, replace]
  · have notFound := position?_eq_none_iff.mpr (mem_names_ofList.not.mpr isNew)
    rw [insert_of_position?_eq_none notFound, append]
  · rcases exists_rows_of_ofTable isTable with ⟨rows, inserted, areRows, accepted, rfl⟩
    exact ⟨rows, inserted, areRows, accepted, isMapOf_ofList inserted⟩

/-- A table with two rows for one abbreviation and a row for another between them. -/
def repeated : String :=
  "abbrev,name,description,value,uncertainty,unit\n" ++
    "k,K,first,1,0,m\nj,J,other,3,0,s\nk,K,second,2,0,km\n"

/-- The second row under an abbreviation takes the place of the first. -/
theorem insertion_ordered_repeated :
    ∃ constants, ofTable .builtin (some repeated) = .ok constants ∧
      constants.names = ["k", "j"] ∧ (constants.find? "k").map (·.description) = some "second" ∧
      ∃ inserted, constants.IsMapOf inserted := by
  have isLoaded : (ofTable .builtin (some repeated)).toOption.any (fun constants =>
      constants.names == ["k", "j"] &&
        (constants.find? "k").map (·.description) == some "second") = true := by
    decide +kernel
  rcases exists_ok_of_any isLoaded with ⟨constants, isTable, isRepeated⟩
  rcases insertion_ordered.2.2 .builtin (some repeated) constants isTable with
    ⟨_, inserted, _, _, isMap⟩
  rw [Bool.and_eq_true] at isRepeated
  exact ⟨constants, isTable, eq_of_beq isRepeated.1, eq_of_beq isRepeated.2, inserted, isMap⟩

end Metrology.Constants

import Mathlib.Data.List.Induction
import Mathlib.Data.List.Nodup
import Metrology.Constants.Basic

/-!
# Looking up constants

The index of constants leads to each of them by its abbreviation, and so no two have the same one.
An insertion replaces the constant with its abbreviation or adds one behind the others; whatever has
another abbreviation is found as before. Where constants are inserted one after another, an
abbreviation is looked up as the last constant inserted under it.
-/

namespace Metrology.Constants

variable {constants : Constants} {constant other : Constant} {list : List Constant}
  {abbreviation : String} {position : Nat}

/-- The abbreviations of constants. -/
def names (constants : Constants) : List String :=
  constants.entries.map Constant.abbreviation

theorem position?_eq_some_iff :
    constants.position? abbreviation = some position ↔
      constants.names[position]? = some abbreviation :=
  constants.indexed abbreviation position

theorem position?_eq_some_iff_entry :
    constants.position? abbreviation = some position ↔
      ∃ constant, constants.entries[position]? = some constant ∧
        constant.abbreviation = abbreviation := by
  rw [position?_eq_some_iff, names, List.getElem?_map, Option.map_eq_some_iff]

theorem position?_eq_none_iff :
    constants.position? abbreviation = none ↔ abbreviation ∉ constants.names := by
  rw [Option.eq_none_iff_forall_ne_some, List.mem_iff_getElem?]
  simp only [ne_eq, position?_eq_some_iff, not_exists]

/-- No two constants have the same abbreviation, for the index gives it one position. -/
theorem nodup_names (constants : Constants) : constants.names.Nodup := by
  refine List.nodup_iff_getElem?_ne_getElem?.mpr fun first second before inRange same => ?_
  have isName := List.getElem?_eq_getElem inRange
  have atFirst := position?_eq_some_iff.mpr (same.trans isName)
  rw [position?_eq_some_iff.mpr isName, Option.some.injEq] at atFirst
  omega

/-- What is found is what stands at the position. -/
theorem find?_eq_bind (constants : Constants) (abbreviation : String) :
    constants.find? abbreviation =
      (constants.position? abbreviation).bind fun position => constants.entries[position]? := by
  unfold find?
  split <;> simp_all

theorem find?_eq_some_iff :
    constants.find? abbreviation = some constant ↔
      constant ∈ constants.entries ∧ constant.abbreviation = abbreviation := by
  simp only [find?_eq_bind, Option.bind_eq_some_iff, position?_eq_some_iff_entry]
  constructor
  · rintro ⟨position, ⟨other, atPosition, isNamed⟩, isConstant⟩
    rw [isConstant, Option.some.injEq] at atPosition
    exact ⟨List.mem_of_getElem? isConstant, atPosition ▸ isNamed⟩
  · rintro ⟨member, isNamed⟩
    rcases List.mem_iff_getElem?.mp member with ⟨position, atPosition⟩
    exact ⟨position, ⟨constant, atPosition, isNamed⟩, atPosition⟩

theorem find?_of_mem (member : constant ∈ constants.entries) :
    constants.find? constant.abbreviation = some constant :=
  find?_eq_some_iff.mpr ⟨member, rfl⟩

theorem contains_iff : constants.contains abbreviation = true ↔ abbreviation ∈ constants.names := by
  rw [contains, Option.isSome_iff_ne_none, ne_eq, position?_eq_none_iff, not_not]

theorem find?_eq_none (notContained : constants.contains abbreviation = false) :
    constants.find? abbreviation = none := by
  have noPosition : constants.position? abbreviation = none := by
    simpa [contains] using notContained
  rw [find?_eq_bind, noPosition]
  rfl

theorem get?_eq_none (notContained : constants.contains abbreviation = false) :
    constants.get? abbreviation = none := by
  rw [get?, find?_eq_none notContained]
  rfl

/-- Looking up by the index finds what a search through the entries finds. -/
theorem find?_eq (constants : Constants) (abbreviation : String) :
    constants.find? abbreviation =
      constants.entries.find? fun constant => constant.abbreviation == abbreviation := by
  cases found : constants.entries.find? fun constant => constant.abbreviation == abbreviation with
  | none =>
      refine Option.eq_none_iff_forall_ne_some.mpr fun constant isConstant => ?_
      rcases find?_eq_some_iff.mp isConstant with ⟨member, isNamed⟩
      exact List.find?_eq_none.mp found constant member (beq_iff_eq.mpr isNamed)
  | some constant =>
      have isNamed : constant.abbreviation = abbreviation := by simpa using List.find?_some found
      exact find?_eq_some_iff.mpr ⟨List.mem_of_find?_eq_some found, isNamed⟩

/-- An abbreviation that is inserted again keeps its position. -/
theorem insert_of_position? (found : constants.position? constant.abbreviation = some position) :
    constants.insert constant = constants.replace constant found := by
  unfold insert
  split
  · rename_i other isOther
    cases Option.some.inj (found.symm.trans isOther)
    rfl
  · rename_i isNew
    cases found.symm.trans isNew

theorem insert_of_position?_eq_none
    (isNew : constants.position? constant.abbreviation = none) :
    constants.insert constant = constants.append constant isNew := by
  unfold insert
  split
  · rename_i found
    cases found.symm.trans isNew
  · rfl

theorem names_insert :
    (constants.insert constant).names =
      if constant.abbreviation ∈ constants.names then constants.names
      else constants.names ++ [constant.abbreviation] := by
  cases found : constants.position? constant.abbreviation with
  | some position =>
      have isName := List.mem_of_getElem? (position?_eq_some_iff.mp found)
      rw [insert_of_position? found, if_pos isName]
      exact constants.map_abbreviation_set found
  | none =>
      rw [insert_of_position?_eq_none found, if_neg (position?_eq_none_iff.mp found)]
      exact List.map_append

theorem find?_insert :
    (constants.insert constant).find? abbreviation =
      if constant.abbreviation = abbreviation then some constant
      else constants.find? abbreviation := by
  cases found : constants.position? constant.abbreviation with
  | some position =>
      have isFound : (constants.insert constant).find? abbreviation =
          (constants.position? abbreviation).bind fun other =>
            (constants.entries.set position constant)[other]? := by
        rw [insert_of_position? found, find?_eq_bind]
        rfl
      rw [isFound]
      by_cases named : constant.abbreviation = abbreviation
      · subst named
        simp [found, constants.position_lt found]
      · rw [if_neg named, find?_eq_bind]
        refine Option.bind_congr fun other isOther => ?_
        have differs : position ≠ other := by
          rintro rfl
          have atPosition := position?_eq_some_iff.mp found
          rw [position?_eq_some_iff.mp isOther, Option.some.injEq] at atPosition
          exact named atPosition.symm
        rw [List.getElem?_set_ne differs]
  | none =>
      have notFound : constants.find? constant.abbreviation = none := by
        rw [find?_eq_bind, found]
        rfl
      rw [find?_eq, insert_of_position?_eq_none found]
      change (constants.entries ++ [constant]).find? _ = _
      rw [List.find?_append, ← find?_eq]
      by_cases named : constant.abbreviation = abbreviation
      · subst named
        simp [notFound]
      · simp [named]

theorem ofList_concat (list : List Constant) (last : Constant) :
    ofList (list ++ [last]) = (ofList list).insert last :=
  List.foldl_append

/-- An abbreviation stands for the last constant that is inserted under it. -/
theorem find?_ofList (list : List Constant) (abbreviation : String) :
    (ofList list).find? abbreviation =
      list.reverse.find? fun constant => constant.abbreviation == abbreviation := by
  induction list using List.reverseRecOn with
  | nil => rfl
  | append_singleton list last ih =>
      rw [ofList_concat, find?_insert, ih, List.reverse_append, List.reverse_singleton,
        List.singleton_append, List.find?_cons]
      by_cases named : last.abbreviation = abbreviation
      · simp [named]
      · rw [if_neg named, beq_eq_false_iff_ne.mpr named]

end Metrology.Constants

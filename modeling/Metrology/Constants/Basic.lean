import Std.Data.TreeMap
import Metrology.Quantity.Reading

/-!
# Constants

The constants that every expression may use are a map from abbreviations to constants that keeps the
order of first insertion. Inserting an abbreviation again replaces its constant where it stands. An
index holds the position of every abbreviation; it is kept in step with the entries, so that what it
leads to is always there and has the abbreviation that was looked up.
-/

namespace Metrology

/-- A named constant. -/
structure Constant where
  abbreviation : String
  name : String
  description : String
  quantity : Quantity Float

/-- An index without positions is in step with no entries. -/
theorem Constants.indexed_empty (abbreviation : String) (position : Nat) :
    (∅ : Std.TreeMap String Nat)[abbreviation]? = some position ↔
      (([] : List Constant).map Constant.abbreviation)[position]? = some abbreviation := by
  simp

/-- Constants in the order in which their abbreviations were first inserted. -/
structure Constants where
  entries : List Constant := []
  /-- The position of every abbreviation among the entries. -/
  index : Std.TreeMap String Nat := ∅
  indexed : ∀ (abbreviation : String) (position : Nat), index[abbreviation]? = some position ↔
    (entries.map Constant.abbreviation)[position]? = some abbreviation := by
      exact Constants.indexed_empty

namespace Constants

variable {constant : Constant} {abbreviation : String} {position : Nat}

def empty : Constants := {}

/-- The position of the constant with an abbreviation. -/
def position? (constants : Constants) (abbreviation : String) : Option Nat :=
  constants.index[abbreviation]?

theorem position_lt (constants : Constants)
    (found : constants.position? abbreviation = some position) :
    position < constants.entries.length := by
  have named := (constants.indexed abbreviation position).mp found
  simpa using (List.getElem?_eq_some_iff.mp named).1

def find? (constants : Constants) (abbreviation : String) : Option Constant :=
  match found : constants.position? abbreviation with
  | some position => some (constants.entries.get ⟨position, constants.position_lt found⟩)
  | none => none

def get? (constants : Constants) (abbreviation : String) : Option (Quantity Float) :=
  (constants.find? abbreviation).map Constant.quantity

def contains (constants : Constants) (abbreviation : String) : Bool :=
  (constants.position? abbreviation).isSome

def size (constants : Constants) : Nat :=
  constants.entries.length

def isEmpty (constants : Constants) : Bool :=
  constants.entries.isEmpty

/-- A constant in place of one with its abbreviation leaves all abbreviations where they are. -/
theorem map_abbreviation_set (constants : Constants)
    (found : constants.position? constant.abbreviation = some position) :
    (constants.entries.set position constant).map Constant.abbreviation =
      constants.entries.map Constant.abbreviation := by
  have named := (constants.indexed constant.abbreviation position).mp found
  rcases List.getElem?_eq_some_iff.mp named with ⟨inRange, isName⟩
  rw [List.map_set, ← isName, List.set_getElem_self]

/-- The constants with one in place of that with its abbreviation. -/
def replace (constants : Constants) (constant : Constant)
    (found : constants.position? constant.abbreviation = some position) : Constants where
  entries := constants.entries.set position constant
  index := constants.index
  indexed := by
    rw [constants.map_abbreviation_set found]
    exact constants.indexed

theorem getElem?_concat_eq_some_iff {names : List String} {last : String} :
    (names ++ [last])[position]? = some abbreviation ↔
      names[position]? = some abbreviation ∨ names.length = position ∧ last = abbreviation := by
  rcases Nat.lt_trichotomy position names.length with before | rfl | behind
  · simp [List.getElem?_append_left before, Nat.ne_of_gt before]
  · simp
  · have outside : (names ++ [last])[position]? = none := by
      rw [List.getElem?_eq_none_iff, List.length_append]
      exact behind
    simp [outside, List.getElem?_eq_none (Nat.le_of_lt behind), Nat.ne_of_lt behind]

/-- A new abbreviation has the position behind the last one. -/
theorem indexed_append (constants : Constants)
    (isNew : constants.position? constant.abbreviation = none) (abbreviation : String)
    (position : Nat) :
    (constants.index.insert constant.abbreviation constants.entries.length)[abbreviation]? =
        some position ↔
      ((constants.entries ++ [constant]).map Constant.abbreviation)[position]? =
        some abbreviation := by
  rw [List.map_append, List.map_singleton, getElem?_concat_eq_some_iff, List.length_map,
    ← constants.indexed]
  simp only [Std.TreeMap.getElem?_insert, Std.LawfulEqOrd.compare_eq_iff_eq]
  by_cases same : constant.abbreviation = abbreviation
  · subst same
    have notFound : constants.index[constant.abbreviation]? = none := isNew
    simp [notFound]
  · simp [same]

/-- The constants with one more, whose abbreviation is new. -/
def append (constants : Constants) (constant : Constant)
    (isNew : constants.position? constant.abbreviation = none) : Constants where
  entries := constants.entries ++ [constant]
  index := constants.index.insert constant.abbreviation constants.entries.length
  indexed := constants.indexed_append isNew

/-- The constants with one more, which takes the place of any with the same abbreviation. -/
def insert (constants : Constants) (constant : Constant) : Constants :=
  match found : constants.position? constant.abbreviation with
  | some _ => constants.replace constant found
  | none => constants.append constant found

def ofList (constants : List Constant) : Constants :=
  constants.foldl insert empty

/-- The listing of all constants with their values, one to a line. -/
def listing (constants : Constants) (system : UnitSystem) : String :=
  Text.joinLines <|
    Text.listingLine 28 "Name:" "Abbreviation:" "Value:" ::
      constants.entries.map fun constant =>
        Text.listingLine 28 constant.name constant.abbreviation
          (constant.quantity.reading system).text

end Constants

end Metrology

import Metrology.Expression.Token
import Metrology.Proofs.Quantity.Literal
import Metrology.Proofs.Store.Entry
import Metrology.Proofs.Text.Blank
import Metrology.Session.Command

/-!
# Names of stored values

What the check of a name is for: a text that passes it is read as itself everywhere. No number
begins as it begins, so it is no literal in any system of units; it is one word, so a line that
consists of it is an expression and a line that clears it names it. In a store it stands for a label
or for a lock and never for both.
-/

namespace Metrology

variable {name : String}

namespace Name

/-- What the check of a name admits: a word that is not reserved and does not begin as a number, a
sign or a power does. -/
theorem check_eq_ok_iff :
    check name = .ok () ↔
      name ∉ reservedWords ∧ ∃ first rest, name.toList = first :: rest ∧ canBegin first = true ∧
        ∀ character ∈ name.toList, Text.isBlank character = false := by
  unfold check
  by_cases reserved : name ∈ reservedWords
  · simp [reserved]
  · cases isText : name.toList with
    | nil => simp [reserved, isWellFormed]
    | cons first rest => simp [reserved, isWellFormed]

theorem notReserved_of_check (isName : check name = .ok ()) : name ∉ reservedWords :=
  (check_eq_ok_iff.mp isName).1

theorem plain_of_check (isName : check name = .ok ()) :
    ∀ character ∈ name.toList, Text.isBlank character = false := by
  rcases check_eq_ok_iff.mp isName with ⟨_, _, _, _, _, plain⟩
  exact plain

theorem nonempty_of_check (isName : check name = .ok ()) : name ≠ "" := by
  rcases check_eq_ok_iff.mp isName with ⟨_, first, rest, isText, _⟩
  rintro rfl
  cases isText

theorem noCaret_of_check (isName : check name = .ok ()) : name.toList.head? ≠ some '^' := by
  rcases check_eq_ok_iff.mp isName with ⟨_, first, rest, isText, begins, _⟩
  rw [isText, List.head?_cons, ne_eq, Option.some.injEq]
  rintro rfl
  cases begins

theorem words_of_check (isName : check name = .ok ()) : Text.words name = [name] :=
  Text.words_of_plain (plain_of_check isName) (nonempty_of_check isName)

open LiteralGrammar in
/-- A name does not begin with a number, with a sign or without. -/
theorem not_beginsNumeral_of_check (isName : check name = .ok ()) :
    ¬IsSigned BeginsNumeral name.toList := by
  rcases check_eq_ok_iff.mp isName with ⟨_, first, rest, isText, begins, _⟩
  rw [isText]
  intro isSigned
  cases isSigned with
  | unsigned beginsNumeral =>
      cases beginsNumeral with
      | digit isDigit => simp [canBegin, isDigit] at begins
      | point => cases begins
  | negative => cases begins

open LiteralGrammar in
/-- A name is no quantity literal, whatever the units are. -/
theorem parse_of_check (isName : check name = .ok ()) (system : UnitSystem) :
    Quantity.parse system name = .error (.malformedLiteral name) := by
  refine Quantity.parse_of_none ?_
  rw [Text.trim_of_plain (plain_of_check isName)]
  rcases read?_cases name.toList with ⟨literal, _, _, _, _, divides⟩ | ⟨fails, _⟩
  · rcases divides with ⟨⟨longest, _⟩, _⟩
    exact absurd (beginsWithNone_iff.mpr (not_beginsNumeral_of_check isName))
      longest.not_beginsWithNone
  · exact fails

end Name

namespace Command

/-- A line that is a name asks for its value. -/
theorem ofLine_of_check (isName : Name.check name = .ok ()) :
    ofLine name = .ok (.evaluate [name]) := by
  have notReserved := Name.notReserved_of_check isName
  rw [ofLine, Name.words_of_check isName]
  unfold ofWords
  split
  all_goals simp_all [Name.reservedWords, ofExpression]

theorem ofLine_clear_of_check (isName : Name.check name = .ok ()) :
    ofLine ("clear " ++ name) = .ok (.clear name) := by
  have notReserved := Name.notReserved_of_check isName
  have separated : "clear " = "clear" ++ " " := by decide
  have isWord : Text.words "clear" = ["clear"] :=
    Text.words_of_plain (by simp [Text.isBlank]) (by decide)
  rw [ofLine, separated, Text.words_append, isWord, Name.words_of_check isName]
  unfold ofWords
  split
  all_goals simp_all [Name.reservedWords]

end Command

namespace Store

variable {store : Store}

theorem contains_iff : store.contains name = true ↔ ∃ entry, store.get? name = some entry := by
  rw [contains, Bool.or_eq_true, ← Std.TreeMap.isSome_getElem?_eq_contains,
    ← Std.TreeMap.isSome_getElem?_eq_contains]
  change (store.label? name).isSome = true ∨ (store.lock? name).isSome = true ↔ _
  unfold get?
  split <;> simp_all [Option.isSome_iff_exists]

theorem mem_labels_iff {quantity : Quantity Float} :
    (name, quantity) ∈ store.labels ↔ store.get? name = some (.label quantity) :=
  Std.TreeMap.mem_toList_iff_getElem?_eq_some.trans label?_eq_some_iff

theorem mem_locks_iff {tokens : List String} :
    (name, tokens) ∈ store.locks ↔ store.get? name = some (.lock tokens) :=
  Std.TreeMap.mem_toList_iff_getElem?_eq_some.trans lock?_eq_some_iff

/-- What is stored is either a label or a lock. -/
theorem xor_of_contains (stored : store.contains name = true) :
    Xor (name ∈ store.labels.map Prod.fst) (name ∈ store.locks.map Prod.fst) := by
  rcases contains_iff.mp stored with ⟨entry, found⟩
  have inLabels : name ∈ store.labels.map Prod.fst ↔
      ∃ quantity, store.get? name = some (.label quantity) := by
    simp [← mem_labels_iff]
  have inLocks : name ∈ store.locks.map Prod.fst ↔
      ∃ tokens, store.get? name = some (.lock tokens) := by
    simp [← mem_locks_iff]
  rw [inLabels, inLocks, found]
  cases entry <;> simp [Xor]

end Store

end Metrology

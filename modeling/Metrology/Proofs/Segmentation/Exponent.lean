import Mathlib.Algebra.Group.Nat.Defs
import Metrology.UnitSystem.Segmentation

/-!
# Written exponents

This file says which exponents may stand after an abbreviation, what they are worth and what may
follow them, without saying how they are read. An exponent is read as far as it goes: a caret takes
all digits after it, and an exponent can only be absent where neither a caret nor a digit follows.
`readExponent` finds exactly these exponents, so a text has at most one at its beginning.
-/

namespace Metrology.Segmentation

/-- The characters of an exponent, its value, and a text that may follow it. -/
inductive WrittenExponent : List Char → Int32 → List Char → Prop where
  | absent {rest : List Char}
      (ends : ∀ next ∈ rest.head?, next ≠ '^' ∧ next.isDigit = false) :
      WrittenExponent [] 1 rest
  | digit {character : Char} {rest : List Char}
      (low : '2' ≤ character) (high : character ≤ '9') :
      WrittenExponent [character] (Int32.ofNat (Decimal.ofDigits [character])) rest
  | caret {digits rest : List Char}
      (digital : ∀ digit ∈ digits, digit.isDigit = true)
      (ends : ∀ next ∈ rest.head?, next.isDigit = false)
      (positive : 1 ≤ Decimal.ofDigits digits) (bounded : Decimal.ofDigits digits < 2 ^ 31) :
      WrittenExponent ('^' :: digits) (Int32.ofNat (Decimal.ofDigits digits)) rest

theorem takeWhile_append_of_ends {digits rest : List Char}
    (digital : ∀ digit ∈ digits, digit.isDigit = true)
    (ends : ∀ next ∈ rest.head?, next.isDigit = false) :
    (digits ++ rest).takeWhile Char.isDigit = digits := by
  rw [List.takeWhile_append_of_pos digital]
  cases rest with
  | nil => simp
  | cons next rest => simp [ends next (by simp)]

theorem isDigit_of_two_le {character : Char} (low : '2' ≤ character) (high : character ≤ '9') :
    character.isDigit = true := by
  rw [Char.le_def] at low high
  simp only [Char.isDigit, Bool.and_eq_true, decide_eq_true_eq, ge_iff_le]
  exact ⟨UInt32.le_trans (by decide) low, high⟩

theorem ne_caret_of_isDigit {character : Char} (digital : character.isDigit = true) :
    character ≠ '^' := by
  rintro rfl
  revert digital
  decide

theorem readExponent_append {written rest : List Char} {exponent : Int32}
    (exponentWritten : WrittenExponent written exponent rest) :
    readExponent (written ++ rest) = some (exponent, written.length) := by
  cases exponentWritten with
  | absent ends =>
      cases rest with
      | nil => rfl
      | cons next rest =>
          have ⟨notCaret, notDigit⟩ := ends next (by simp)
          have notLow : ¬('2' ≤ next ∧ next ≤ '9') := by
            rintro ⟨low, high⟩
            simp [isDigit_of_two_le low high] at notDigit
          simp [readExponent, notLow, notDigit]
  | @digit character rest low high =>
      have notCaret := ne_caret_of_isDigit (isDigit_of_two_le low high)
      simp [readExponent, low, high]
  | @caret digits rest digital ends positive bounded =>
      have taken := takeWhile_append_of_ends digital ends
      simp only [List.cons_append, readExponent, taken]
      rw [if_pos ⟨positive, bounded⟩]
      simp

theorem exists_writtenExponent_of_readExponent {text : List Char} {exponent : Int32} {used : Nat}
    (read : readExponent text = some (exponent, used)) :
    ∃ written rest, text = written ++ rest ∧ WrittenExponent written exponent rest ∧
      used = written.length := by
  unfold readExponent at read
  split at read
  · cases read
    exact ⟨[], [], rfl, .absent (by simp), rfl⟩
  · rename_i digitsAndRest
    simp only [Option.ite_none_right_eq_some, Option.some.injEq, Prod.mk.injEq] at read
    rcases read with ⟨⟨positive, bounded⟩, rfl, rfl⟩
    refine ⟨'^' :: digitsAndRest.takeWhile Char.isDigit, digitsAndRest.dropWhile Char.isDigit,
      by simp, .caret ?_ ?_ positive bounded, rfl⟩
    · intro digit member
      exact List.all_eq_true.mp List.all_takeWhile digit member
    · intro next isNext
      have stops := List.head?_dropWhile_not Char.isDigit digitsAndRest
      rw [Option.mem_def] at isNext
      simpa [isNext] using stops
  · rename_i character rest notCaret
    split at read
    · rename_i bounds
      cases read
      exact ⟨[character], rest, rfl, .digit bounds.1 bounds.2, rfl⟩
    · split at read
      · cases read
      · rename_i notDigit
        cases read
        refine ⟨[], character :: rest, rfl, .absent ?_, rfl⟩
        intro next isNext
        simp only [List.head?_cons, Option.mem_def, Option.some.injEq] at isNext
        subst next
        refine ⟨?_, by simpa using notDigit⟩
        rintro rfl
        exact notCaret rfl

/-- A text begins with at most one exponent. -/
theorem WrittenExponent.unique {written written' rest rest' : List Char}
    {exponent exponent' : Int32} (left : WrittenExponent written exponent rest)
    (right : WrittenExponent written' exponent' rest')
    (same : written ++ rest = written' ++ rest') :
    written = written' ∧ exponent = exponent' ∧ rest = rest' := by
  have readLeft := readExponent_append left
  rw [same, readExponent_append right] at readLeft
  simp only [Option.some.injEq, Prod.mk.injEq] at readLeft
  rcases List.append_inj same readLeft.2.symm with ⟨sameWritten, sameRest⟩
  exact ⟨sameWritten, readLeft.1.symm, sameRest⟩

end Metrology.Segmentation

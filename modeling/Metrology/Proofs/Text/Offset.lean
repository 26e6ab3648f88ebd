import Mathlib.Data.String.Basic

/-!
# Byte offsets

A place in a text can be named by the number of bytes before it in UTF-8. Not every number names
one: none of those within a character of several bytes does, and none past the end. `cut?` divides a
text at an offset, and this file shows that it does so just where the offset is a place.
-/

namespace Metrology.Text

open String (utf8Len)

/-- Whether a byte offset stands before a character of a text or at its end. -/
def IsBoundary (text : List Char) (offset : Nat) : Prop :=
  String.Pos.Raw.IsValid (String.ofList text) ⟨offset⟩

instance (text : List Char) (offset : Nat) : Decidable (IsBoundary text offset) :=
  inferInstanceAs (Decidable (String.Pos.Raw.IsValid (String.ofList text) ⟨offset⟩))

/-- The text before a byte offset and the text from it on. -/
def cut? : List Char → Nat → Option (List Char × List Char)
  | text, 0 => some ([], text)
  | [], _ + 1 => none
  | first :: text, offset + 1 =>
      if first.utf8Size ≤ offset + 1 then
        (cut? text (offset + 1 - first.utf8Size)).map fun (before, after) =>
          (first :: before, after)
      else none

variable {text before after : List Char} {offset : Nat}

theorem cut?_utf8Len (before after : List Char) :
    cut? (before ++ after) (utf8Len before) = some (before, after) := by
  induction before with
  | nil => cases after <;> rfl
  | cons first before ih =>
      have positive := first.utf8Size_pos
      rw [List.cons_append, String.utf8Len_cons]
      obtain ⟨size, isSize⟩ : ∃ size, utf8Len before + first.utf8Size = size + 1 :=
        ⟨utf8Len before + first.utf8Size - 1, by omega⟩
      rw [isSize, cut?, if_pos (by omega), ← isSize, Nat.add_sub_cancel, ih, Option.map_some]

/-- A cut loses nothing and leaves as many bytes before it as the offset says. -/
theorem cut?_eq_some_iff :
    cut? text offset = some (before, after) ↔ text = before ++ after ∧ offset = utf8Len before := by
  refine ⟨fun isCut => ?_, ?_⟩
  · fun_induction cut? text offset generalizing before with
    | case1 text => simp_all
    | case2 offset => cases isCut
    | case3 first text offset fits ih =>
        simp only [Option.map_eq_some_iff, Prod.mk.injEq, Prod.exists] at isCut
        rcases isCut with ⟨others, rest, isRest, rfl, rfl⟩
        rcases ih isRest with ⟨rfl, isOffset⟩
        rw [List.cons_append, String.utf8Len_cons]
        exact ⟨rfl, by omega⟩
    | case4 first text offset tooFar => cases isCut
  · rintro ⟨rfl, rfl⟩
    exact cut?_utf8Len before after

theorem isBoundary_iff :
    IsBoundary text offset ↔ ∃ before after, text = before ++ after ∧ offset = utf8Len before := by
  simp only [IsBoundary, String.Pos.Raw.isValid_iff_exists_append, String.Pos.Raw.ext_iff]
  constructor
  · rintro ⟨before, after, isText, isOffset⟩
    refine ⟨before.toList, after.toList, ?_, ?_⟩
    · simpa using congrArg String.toList isText
    · rw [String.utf8Len_toList]
      exact isOffset
  · rintro ⟨before, after, rfl, rfl⟩
    refine ⟨String.ofList before, String.ofList after, String.ofList_append, ?_⟩
    rw [String.rawEndPos_ofList]

theorem isBoundary_utf8Len (before after : List Char) :
    IsBoundary (before ++ after) (utf8Len before) :=
  isBoundary_iff.mpr ⟨before, after, rfl, rfl⟩

theorem IsBoundary.le (boundary : IsBoundary text offset) : offset ≤ utf8Len text := by
  rcases isBoundary_iff.mp boundary with ⟨before, after, rfl, rfl⟩
  rw [String.utf8Len_append]
  omega

/-- A text can be cut just at its boundaries. -/
theorem isBoundary_iff_exists_cut? :
    IsBoundary text offset ↔ ∃ before after, cut? text offset = some (before, after) := by
  simp only [isBoundary_iff, cut?_eq_some_iff]

/-- Digits take one byte each. -/
theorem utf8Len_of_isDigit {digits : List Char}
    (digital : ∀ digit ∈ digits, digit.isDigit = true) : utf8Len digits = digits.length := by
  induction digits with
  | nil => rfl
  | cons digit digits ih =>
      have ⟨first, others⟩ := List.forall_mem_cons.mp digital
      have oneByte : digit.utf8Size = 1 := by
        rw [Char.utf8Size_eq_one_iff]
        simp only [Char.isDigit, Bool.and_eq_true, decide_eq_true_eq] at first
        exact UInt32.le_trans first.2 (by decide)
      rw [String.utf8Len_cons, ih others, oneByte, List.length_cons]

end Metrology.Text

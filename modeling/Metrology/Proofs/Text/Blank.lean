import Mathlib.Data.List.Basic
import Metrology.Text.Blank

/-!
# Trimmed text and words

Trimming takes blanks from the ends alone: a text that begins with other characters keeps them, and
what is left has, without its blanks, the characters that there were without them. A text without
blanks is one word, and a space between two texts divides the words of one from those of the other.
-/

namespace Metrology.Text

variable {text : List Char}

theorem dropWhile_isBlank_of_plain (plain : ∀ character ∈ text, isBlank character = false) :
    text.dropWhile isBlank = text := by
  cases text with
  | nil => rfl
  | cons first others => simp [plain first (by simp)]

/-- Characters that are not blank are kept at the beginning of a text. -/
theorem trim_append (plain : ∀ character ∈ text, isBlank character = false) (nonempty : text ≠ [])
    (rest : List Char) : trim (text ++ rest) = trimEnd (text ++ rest) := by
  cases text with
  | nil => exact absurd rfl nonempty
  | cons first others => simp [trim, plain first (by simp)]

/-- What follows characters that are not blank is trimmed alone. -/
theorem trimEnd_append (plain : ∀ character ∈ text, isBlank character = false) (rest : List Char) :
    trimEnd (text ++ rest) = text ++ trimEnd rest := by
  have plainReverse : ∀ character ∈ text.reverse, isBlank character = false :=
    fun character member => plain character (List.mem_reverse.mp member)
  rw [trimEnd, trimEnd, List.reverse_append, List.dropWhile_append]
  split
  · rename_i isEmpty
    rw [List.isEmpty_iff.mp isEmpty, dropWhile_isBlank_of_plain plainReverse]
    simp
  · rw [List.reverse_append, List.reverse_reverse]

theorem trimEnd_isPrefix (text : List Char) : trimEnd text <+: text := by
  rw [← List.reverse_suffix, trimEnd, List.reverse_reverse]
  exact List.dropWhile_suffix isBlank

/-- Trimming takes nothing but blanks. -/
theorem compact_trimEnd (text : List Char) : compact (trimEnd text) = compact text := by
  have split := List.takeWhile_append_dropWhile (p := isBlank) (l := text.reverse)
  have onlyBlanks : compact (text.reverse.takeWhile isBlank).reverse = [] := by
    refine List.filter_eq_nil_iff.mpr fun character member => ?_
    have blank := List.all_eq_true.mp List.all_takeWhile character (List.mem_reverse.mp member)
    simp [blank]
  have isText : text = trimEnd text ++ (text.reverse.takeWhile isBlank).reverse := by
    rw [trimEnd, ← List.reverse_append, split, List.reverse_reverse]
  conv_rhs => rw [isText, compact, List.filter_append]
  rw [compact] at onlyBlanks
  rw [onlyBlanks, List.append_nil, compact]

theorem trim_of_plain (plain : ∀ character ∈ text, isBlank character = false) :
    trim text = text := by
  have keptEnd := trimEnd_append plain []
  rw [List.append_nil] at keptEnd
  rw [trim, dropWhile_isBlank_of_plain plain, keptEnd]
  exact List.append_nil text

theorem words_append (left right : String) :
    words (left ++ " " ++ right) = words left ++ words right := by
  have blankSpace : isBlank ' ' = true := by decide
  have isText : (left ++ " " ++ right).toList = left.toList ++ ' ' :: right.toList := by simp
  simp only [words, isText, List.splitOnP_append_cons _ _ blankSpace, List.filter_append,
    List.map_append]

theorem words_of_plain {word : String}
    (plain : ∀ character ∈ word.toList, isBlank character = false) (nonempty : word ≠ "") :
    words word = [word] := by
  simp [words, List.splitOnP_eq_singleton plain, nonempty]

end Metrology.Text

import Metrology.Proofs.Text.Blank

/-!
# The words of a line

A line spells words if it consists of them in their order, with blanks between any two and with any
blanks before and after them. Every line spells exactly one list of words, the one that it is
divided into, and words that are joined with spaces are spelled by the line that they make.
-/

namespace Metrology.Text

/-- Whether a text is a word: it has characters and none of them is blank. -/
structure IsWord (word : String) : Prop where
  nonempty : word ≠ ""
  plain : ∀ character ∈ word.toList, isBlank character = false

/-- Whether nothing but blanks stands somewhere. -/
def IsGap (gap : List Char) : Prop :=
  ∀ character ∈ gap, isBlank character = true

/-- Whether a text consists of words with gaps around them. A gap after a word may be empty only at
the end. -/
inductive Spells : List String → List Char → Prop where
  | gap {gap : List Char} (isGap : IsGap gap) : Spells [] gap
  | word {gap rest : List Char} {word : String} {words : List String} (isGap : IsGap gap)
      (isWord : IsWord word) (divided : ∀ first ∈ rest.head?, isBlank first = true)
      (spelled : Spells words rest) : Spells (word :: words) (gap ++ word.toList ++ rest)

variable {text rest : List Char} {word : String} {expected : List String} {line : String}

theorem words_blank_cons {blank : Char} (isBlank' : isBlank blank = true) (text : List Char) :
    words (String.ofList (blank :: text)) = words (String.ofList text) := by
  have divided := List.splitOnP_append_cons [] text isBlank'
  rw [List.nil_append] at divided
  simp [words, divided]

theorem words_gap_append {gap : List Char} (isGap : IsGap gap) (text : List Char) :
    words (String.ofList (gap ++ text)) = words (String.ofList text) := by
  induction gap with
  | nil => rfl
  | cons first gap ih =>
      rw [IsGap, List.forall_mem_cons] at isGap
      rw [List.cons_append, words_blank_cons isGap.1, ih isGap.2]

theorem words_word_append (isWord : IsWord word)
    (divided : ∀ first ∈ rest.head?, isBlank first = true) :
    words (String.ofList (word.toList ++ rest)) = word :: words (String.ofList rest) := by
  cases rest with
  | nil =>
      rw [List.append_nil, String.ofList_toList]
      exact words_of_plain isWord.plain isWord.nonempty
  | cons first rest =>
      have blank := divided first rfl
      rw [words_blank_cons blank]
      simp [words, List.splitOnP_append_cons _ _ blank, List.splitOnP_eq_singleton isWord.plain,
        isWord.nonempty]

theorem Spells.words_eq (spelled : Spells expected text) :
    words (String.ofList text) = expected := by
  induction spelled with
  | gap isGap =>
      have noText := words_gap_append isGap []
      rw [List.append_nil] at noText
      rw [noText]
      decide
  | word isGap isWord divided _ ih =>
      rw [List.append_assoc, words_gap_append isGap, words_word_append isWord divided, ih]

theorem Spells.blank_cons {blank : Char} (isBlank' : isBlank blank = true)
    (spelled : Spells expected text) : Spells expected (blank :: text) := by
  cases spelled with
  | gap isGap => exact .gap (List.forall_mem_cons.mpr ⟨isBlank', isGap⟩)
  | @word gap _ _ _ isGap isWord divided spelled =>
      have longer : IsGap (blank :: gap) := List.forall_mem_cons.mpr ⟨isBlank', isGap⟩
      have isSpelled := Spells.word longer isWord divided spelled
      exact isSpelled

theorem Spells.begin {characters : List Char} (nonempty : characters ≠ [])
    (plain : ∀ character ∈ characters, isBlank character = false)
    (divided : ∀ first ∈ rest.head?, isBlank first = true) (spelled : Spells expected rest) :
    Spells (String.ofList characters :: expected) (characters ++ rest) := by
  have isWord : IsWord (String.ofList characters) := by
    refine ⟨fun isEmpty => nonempty ?_, ?_⟩
    · simpa using congrArg String.toList isEmpty
    · simpa using plain
  have noGap : IsGap [] := by simp [IsGap]
  have isSpelled := Spells.word noGap isWord divided spelled
  rwa [List.nil_append, String.toList_ofList] at isSpelled

/-- A character that is not blank is put before the first word where that begins the text, and else
makes a word of its own. -/
theorem Spells.plain_cons {first : Char} (plain : isBlank first = false)
    (spelled : Spells expected text) : ∃ longer, Spells longer (first :: text) := by
  have alone : ∀ character ∈ [first], isBlank character = false := by simpa using plain
  have apart := fun divided => Spells.begin (List.cons_ne_nil first []) alone divided spelled
  cases spelled with
  | gap isGap => exact ⟨_, apart fun other isFirst => isGap other (List.mem_of_head? isFirst)⟩
  | @word gap rest word words isGap isWord divided spelled =>
      cases gap with
      | nil =>
          have longer : ∀ character ∈ first :: word.toList, isBlank character = false :=
            List.forall_mem_cons.mpr ⟨plain, isWord.plain⟩
          exact ⟨_, Spells.begin (List.cons_ne_nil first _) longer divided spelled⟩
      | cons blank gap =>
          refine ⟨_, apart fun other isFirst => ?_⟩
          cases isFirst
          exact isGap blank List.mem_cons_self

theorem exists_spells (text : List Char) : ∃ spelled, Spells spelled text := by
  induction text with
  | nil => exact ⟨[], .gap (by simp [IsGap])⟩
  | cons first text ih =>
      rcases ih with ⟨spelled, isSpelled⟩
      cases blank : isBlank first with
      | true => exact ⟨spelled, isSpelled.blank_cons blank⟩
      | false => exact isSpelled.plain_cons blank

/-- A line spells the words that it is divided into and no others. -/
theorem spells_iff : Spells expected line.toList ↔ words line = expected := by
  constructor
  · intro spelled
    have same := spelled.words_eq
    rwa [String.ofList_toList] at same
  · rintro rfl
    rcases exists_spells line.toList with ⟨spelled, isSpelled⟩
    have same := isSpelled.words_eq
    rw [String.ofList_toList] at same
    exact same ▸ isSpelled

theorem Spells.isWord (spelled : Spells expected text) : ∀ word ∈ expected, IsWord word := by
  induction spelled with
  | gap _ => simp
  | word _ isWord _ _ ih => exact List.forall_mem_cons.mpr ⟨isWord, ih⟩

theorem isWord_of_mem_words (member : word ∈ words line) : IsWord word :=
  (spells_iff.mpr rfl).isWord word member

/-- Words that are joined with spaces make a line that is divided into them. -/
theorem words_intercalate (areWords : ∀ word ∈ expected, IsWord word) :
    words (String.intercalate " " expected) = expected := by
  induction expected with
  | nil => decide
  | cons word others ih =>
      rw [List.forall_mem_cons] at areWords
      have first := words_of_plain areWords.1.plain areWords.1.nonempty
      cases others with
      | nil => rw [String.intercalate_singleton, first]
      | cons second others =>
          rw [String.intercalate_cons_cons, words_append, first, ih areWords.2,
            List.singleton_append]

end Metrology.Text

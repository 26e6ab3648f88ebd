import Mathlib.Data.List.Basic
import Metrology.Program.Transcript

/-!
# The lines of an input

An input is read line by line: what stands before the first line feed is a line, and what follows
the line feed is read in turn. `ReadsAs` describes this reading. Every input is read as exactly one
list of lines, the one that `inputLines` gives, and what has been read up to a line feed does not
depend on what follows it.
-/

namespace Metrology.Program

/-- How an input is read up to its end. A line that no line feed ends keeps a carriage return. -/
inductive ReadsAs : List String → List Char → Prop where
  | atEnd : ReadsAs [] []
  | last {line : List Char} (nonempty : line ≠ []) (noFeed : '\n' ∉ line) :
      ReadsAs [String.ofList line] line
  | line {line rest : List Char} {lines : List String} (noFeed : '\n' ∉ line)
      (readsRest : ReadsAs lines rest) :
      ReadsAs (String.ofList (dropReturn line) :: lines) (line ++ '\n' :: rest)

variable {text line : List Char} {lines : List String}

theorem inputLines_ofList_append (before after : List Char) :
    inputLines (String.ofList (before ++ '\n' :: after)) =
      (before.splitOn '\n').map (String.ofList ∘ dropReturn) ++
        inputLines (String.ofList after) := by
  have pieces : (before ++ '\n' :: after).splitOn '\n' =
      before.splitOn '\n' ++ after.splitOn '\n' :=
    List.splitOnP_append_cons before after (beq_self_eq_true '\n')
  have nonempty := List.splitOn_ne_nil '\n' after
  have sameRest : (before.splitOn '\n' ++ after.splitOn '\n').getLastD [] =
      (after.splitOn '\n').getLastD [] := by
    rw [List.getLastD_eq_getLast?, List.getLastD_eq_getLast?,
      List.getLast?_append_of_ne_nil _ nonempty]
  simp only [inputLines, String.toList_ofList, pieces, sameRest,
    List.dropLast_append_of_ne_nil nonempty, List.map_append]
  split <;> simp

theorem inputLines_empty : inputLines (String.ofList []) = [] := by
  decide

theorem inputLines_last (nonempty : line ≠ []) (noFeed : '\n' ∉ line) :
    inputLines (String.ofList line) = [String.ofList line] := by
  simp [inputLines, List.splitOn_eq_singleton noFeed, nonempty]

theorem ReadsAs.eq_inputLines (reads : ReadsAs lines text) :
    lines = inputLines (String.ofList text) := by
  induction reads with
  | atEnd => exact inputLines_empty.symm
  | last nonempty noFeed => exact (inputLines_last nonempty noFeed).symm
  | line noFeed _ ih =>
      rw [inputLines_ofList_append, List.splitOn_eq_singleton noFeed, ← ih]
      rfl

/-- A character before a text ends an empty line or belongs to the first line. -/
theorem ReadsAs.cons (reads : ReadsAs lines text) (first : Char) :
    ∃ longer, ReadsAs longer (first :: text) := by
  by_cases feed : first = '\n'
  · subst feed
    exact ⟨_, .line List.not_mem_nil reads⟩
  · have noFeed {line : List Char} (absent : '\n' ∉ line) : '\n' ∉ first :: line := by
      simp [absent, Ne.symm feed]
    cases reads with
    | atEnd => exact ⟨_, .last (List.cons_ne_nil first []) (noFeed List.not_mem_nil)⟩
    | last _ absent => exact ⟨_, .last (List.cons_ne_nil first _) (noFeed absent)⟩
    | line absent readsRest => exact ⟨_, .line (noFeed absent) readsRest⟩

theorem exists_readsAs (text : List Char) : ∃ lines, ReadsAs lines text := by
  induction text with
  | nil => exact ⟨[], .atEnd⟩
  | cons first text ih =>
      rcases ih with ⟨lines, reads⟩
      exact reads.cons first

/-- An input is read as its lines and not otherwise. -/
theorem readsAs_iff {input : String} : ReadsAs lines input.toList ↔ lines = inputLines input := by
  constructor
  · intro reads
    have isLines := reads.eq_inputLines
    rwa [String.ofList_toList] at isLines
  · rintro rfl
    rcases exists_readsAs input.toList with ⟨lines, reads⟩
    have isLines := reads.eq_inputLines
    rw [String.ofList_toList] at isLines
    exact isLines ▸ reads

/-- What follows a line feed does not change the lines before it. -/
theorem inputLines_append (before after : String) :
    inputLines (before ++ "\n" ++ after) = inputLines (before ++ "\n") ++ inputLines after := by
  have isText (rest : String) :
      before ++ "\n" ++ rest = String.ofList (before.toList ++ '\n' :: rest.toList) := by
    rw [← String.toList_inj]
    simp
  have alone := isText ""
  rw [String.append_empty] at alone
  rw [isText after, alone, inputLines_ofList_append, inputLines_ofList_append,
    String.ofList_toList, String.toList_empty, inputLines_empty, List.append_nil]

end Metrology.Program

import Metrology.Proofs.Text.Words
import Metrology.Session.Command

/-!
# Reading and writing commands

A command is read from the words of a line and holds all of them: it is written as the words that it
was read from, and it is read again from them. A line is refused only where a name and a keyword
stand alone.
-/

namespace Metrology.Command

variable {command : Command} {words : List String} {missing : MissingExpression} {line : String}

/-- The expression of a command that has one. -/
def expression? : Command → Option (List String)
  | assign _ expression | lock _ expression | convert expression _ | evaluate expression =>
      some expression
  | _ => none

/-- The words of a line that is read as a command. Two words mean that the program is left. -/
inductive WrittenAs (words : List String) : Command → Prop where
  | words {command : Command} (same : words = command.words) : WrittenAs words command
  | exit (same : words = ["exit"]) : WrittenAs words quit

theorem words_ofExpression (words : List String) : (ofExpression words).words = words := by
  unfold ofExpression
  split
  · rename_i unit last before isReverse
    have isWords := congrArg List.reverse isReverse
    rw [List.reverse_reverse] at isWords
    simp [Command.words, isWords]
  · rfl

theorem nonempty_of_ofExpression (nonempty : words ≠ []) :
    ∀ expression ∈ (ofExpression words).expression?, expression ≠ [] := by
  unfold ofExpression
  split
  · simp [expression?]
  · simpa [expression?] using nonempty

/-- The fixed forms are tried in their order, and what is left is read as an expression. -/
theorem ofWords_cases (words : List String) :
    (∃ command, ofWords words = .ok command ∧ WrittenAs words command ∧
        ∀ expression ∈ command.expression?, expression ≠ []) ∨
      ∃ name missing, ofWords words = .error missing ∧
        (missing.keyword = "is" ∨ missing.keyword = "lock") ∧ words = [name, missing.keyword] := by
  unfold ofWords
  split
  -- The cases are those of the match: `exit` (7), a keyword that ends the line (8 and 9), a keyword
  -- with an expression (10 and 11), an expression alone (13), and the forms without one.
  case h_7 => exact .inl ⟨_, rfl, .exit rfl, by simp [expression?]⟩
  case h_8 name => exact .inr ⟨name, _, rfl, .inl rfl, rfl⟩
  case h_9 name => exact .inr ⟨name, _, rfl, .inr rfl, rfl⟩
  case h_10 name expression notAlone =>
    exact .inl ⟨_, rfl, .words rfl, by simpa [expression?] using notAlone⟩
  case h_11 name expression notAlone =>
    exact .inl ⟨_, rfl, .words rfl, by simpa [expression?] using notAlone⟩
  case h_13 =>
    have nonempty : words ≠ [] := ‹words = [] → False›
    exact .inl ⟨_, rfl, .words (words_ofExpression words).symm, nonempty_of_ofExpression nonempty⟩
  all_goals exact .inl ⟨_, rfl, .words rfl, by simp [expression?]⟩

theorem writtenAs_of_ofWords (isCommand : ofWords words = .ok command) :
    WrittenAs words command ∧ ∀ expression ∈ command.expression?, expression ≠ [] := by
  rcases ofWords_cases words with ⟨other, isOther, holds⟩ | ⟨_, _, isError, _⟩
  · rw [isCommand, Except.ok.injEq] at isOther
    exact isOther ▸ holds
  · rw [isCommand] at isError
    cases isError

/-- A command is read again from its own words. -/
theorem ofWords_words (isCommand : ofWords words = .ok command) :
    ofWords command.words = .ok command := by
  rcases (writtenAs_of_ofWords isCommand).1 with same | _
  · rw [← same]
    exact isCommand
  · rfl

theorem ofWords_eq_error_iff :
    ofWords words = .error missing ↔
      (missing.keyword = "is" ∨ missing.keyword = "lock") ∧
        ∃ name, words = [name, missing.keyword] := by
  constructor
  · intro isError
    rcases ofWords_cases words with ⟨_, isCommand, _⟩ | ⟨name, other, isOther, isKeyword, isLine⟩
    · rw [isError] at isCommand
      cases isCommand
    · rw [isError, Except.error.injEq] at isOther
      exact isOther ▸ ⟨isKeyword, name, isLine⟩
  · cases missing
    rintro ⟨rfl | rfl, name, rfl⟩ <;> simp [ofWords]

/-- The words of a command that has been read from a line are words. -/
theorem isWord_of_ofLine (isCommand : ofLine line = .ok command) :
    ∀ word ∈ command.words, Text.IsWord word := by
  intro word member
  rcases (writtenAs_of_ofWords isCommand).1 with same | _
  · rw [← same] at member
    exact Text.isWord_of_mem_words member
  · rw [List.mem_singleton.mp member]
    exact ⟨by decide, by simp [Text.isBlank]⟩

/-- Reading a line loses nothing but its spacing. A line spells one list of words, and lines that
spell the same are read alike. A command that is read is written as the words of its line, or is
`exit` and written as `quit`; its expression, if it has one, is not empty; and every line that
spells its words is read as the same command, with single spaces as with any others. Reading fails
just where a line has two words of which the second is `is` or `lock`, and reports this one. -/
theorem ofLine_loses_nothing (line : String) :
    (∃! expected, Text.Spells expected line.toList) ∧
      (∀ other expected, Text.Spells expected line.toList → Text.Spells expected other.toList →
        ofLine other = ofLine line) ∧
      (∀ command, ofLine line = .ok command →
        (Text.Spells command.words line.toList ∨
          command = quit ∧ Text.Spells ["exit"] line.toList) ∧
        (∀ expression ∈ command.expression?, expression ≠ []) ∧
        Text.Spells command.words (String.intercalate " " command.words).toList ∧
        ∀ written, Text.Spells command.words written.toList → ofLine written = .ok command) ∧
      ∀ missing, ofLine line = .error missing ↔
        (missing.keyword = "is" ∨ missing.keyword = "lock") ∧
          ∃ name, Text.Spells [name, missing.keyword] line.toList := by
  simp only [Text.spells_iff]
  refine ⟨⟨_, rfl, fun _ => Eq.symm⟩, ?_, ?_, fun missing => ofWords_eq_error_iff⟩
  · intro other expected isLine isOther
    rw [ofLine, ofLine, isLine, isOther]
  · intro command isCommand
    rcases writtenAs_of_ofWords isCommand with ⟨written, nonempty⟩
    refine ⟨?_, nonempty, Text.words_intercalate (isWord_of_ofLine isCommand), ?_⟩
    · rcases written with same | same
      · exact .inl same
      · exact .inr ⟨rfl, same⟩
    · intro written isWritten
      rw [ofLine, isWritten]
      exact ofWords_words isCommand

example : ofLine " a is  2 in km " = .ok (.assign "a" ["2", "in", "km"]) := by
  decide +kernel

end Metrology.Command

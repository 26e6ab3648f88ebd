import Metrology.Decimal.Integer

/-!
# Lexemes of a settings file

This file reads the smallest parts of a settings file: blanks, comments and line ends, the four
forms of quoted text, and keys. Every reader returns what follows the part it has read.
-/

namespace Metrology.Settings

/-- Whether a character separates the parts of a line. -/
def isSeparator (character : Char) : Bool :=
  character == ' ' || character == '\t'

/-- Whether a character may stand in a comment or, unless it delimits it, in quoted text: every
character but the control characters other than the tabulator. -/
def isPrintable (character : Char) : Bool :=
  character == '\t' || (0x20 ≤ character.toNat && character.toNat ≠ 0x7F)

/-- What follows the separators that a text begins with. -/
def skipSeparators (text : List Char) : List Char :=
  text.dropWhile isSeparator

/-- What follows the line end that a text begins with. -/
def readLineEnd? : List Char → Option (List Char)
  | '\n' :: rest => some rest
  | '\r' :: '\n' :: rest => some rest
  | _ => none

/-- A line end is read from the front of a text. -/
theorem length_le_of_readLineEnd? {text rest : List Char}
    (lineEnds : readLineEnd? text = some rest) : rest.length ≤ text.length := by
  fun_cases readLineEnd? text with
  | case1 after =>
      cases lineEnds
      simp
  | case2 after =>
      cases lineEnds
      simp only [List.length_cons]
      omega
  | case3 =>
      simp [readLineEnd?] at lineEnds

/-- What follows the line, of which at most separators and a comment may be left. -/
def finishLine? (text : List Char) : Option (List Char) :=
  let rest :=
    match skipSeparators text with
    | '#' :: comment => comment.dropWhile isPrintable
    | other => other
  if rest.isEmpty then some [] else readLineEnd? rest

/-- What follows the separators, line ends and comments that a text begins with. A comment must not
hold control characters. -/
def skipLines? (inComment : Bool) : List Char → Option (List Char)
  | [] => some []
  | '\n' :: rest => skipLines? false rest
  | '\r' :: '\n' :: rest => skipLines? false rest
  | character :: rest =>
      if inComment then if isPrintable character then skipLines? true rest else none
      else if isSeparator character then skipLines? false rest
      else if character = '#' then skipLines? true rest
      else some (character :: rest)

/-- The character with a code given in hexadecimal digits. -/
def characterOf? (digits : List Char) : Option Char := do
  let code ← Decimal.readNat? 16 digits
  if code.isValidChar then some (Char.ofNat code) else none

/-- The character that an escape stands for and the number of characters the escape takes, given
what follows the backslash. -/
def readEscape? : List Char → Option (Char × Nat)
  | 'b' :: _ => some ('\x08', 1)
  | 't' :: _ => some ('\t', 1)
  | 'n' :: _ => some ('\n', 1)
  | 'f' :: _ => some ('\x0c', 1)
  | 'r' :: _ => some ('\r', 1)
  | 'e' :: _ => some ('\x1b', 1)
  | '"' :: _ => some ('"', 1)
  | '\\' :: _ => some ('\\', 1)
  | 'x' :: rest => hexadecimal 2 rest
  | 'u' :: rest => hexadecimal 4 rest
  | 'U' :: rest => hexadecimal 8 rest
  | _ => none
where
  hexadecimal (size : Nat) (text : List Char) : Option (Char × Nat) :=
    let digits := text.take size
    if digits.length = size then (characterOf? digits).map (·, size + 1) else none

/-- The number of quotation marks that close a text on several lines where it stands, and the
number of them that belong to the text: three close it, and up to two may precede them. -/
def closingQuotes? (quote : Char) (text : List Char) : Option (Nat × Nat) :=
  let run := Nat.min 5 (text.takeWhile (· == quote)).length
  if run < 3 then none else some (run, run - 3)

/-- The rest of a text in quotation marks on one line. `done` holds what has been read, latest
first. -/
def readQuoted? (done : List Char) (text : List Char) : Option (String × List Char) :=
  match text with
  | [] => none
  | '"' :: rest => some (String.ofList done.reverse, rest)
  | '\\' :: rest =>
      match readEscape? rest with
      | some (character, size) => readQuoted? (character :: done) (rest.drop size)
      | none => none
  | character :: rest =>
      if isPrintable character then readQuoted? (character :: done) rest else none
termination_by text.length
decreasing_by all_goals simp only [List.length_drop, List.length_cons]; omega

/-- What follows the separators and line ends that a text begins with. -/
def skipBlankLines : List Char → List Char
  | '\n' :: rest => skipBlankLines rest
  | '\r' :: '\n' :: rest => skipBlankLines rest
  | character :: rest =>
      if isSeparator character then skipBlankLines rest else character :: rest
  | [] => []

/-- No text grows when its blank lines are skipped. -/
theorem length_skipBlankLines_le (text : List Char) :
    (skipBlankLines text).length ≤ text.length := by
  fun_induction skipBlankLines text with
  | case1 rest shorter =>
      simp only [List.length_cons]
      omega
  | case2 rest shorter =>
      simp only [List.length_cons]
      omega
  | case3 character rest _ _ _ shorter =>
      simp only [List.length_cons]
      omega
  | case4 => exact Nat.le_refl _
  | case5 => exact Nat.le_refl _

/-- What follows a line end that is escaped, given what follows the backslash: the separators and
line ends up to the next other character are left out. -/
def readContinuation? (text : List Char) : Option (List Char) :=
  (readLineEnd? (skipSeparators text)).map skipBlankLines

/-- A line continues in what is left of a text. -/
theorem length_le_of_readContinuation? {text rest : List Char}
    (continues : readContinuation? text = some rest) : rest.length ≤ text.length := by
  obtain ⟨after, lineEnds, rfl⟩ := Option.map_eq_some_iff.mp continues
  exact Nat.le_trans (length_skipBlankLines_le after)
    (Nat.le_trans (length_le_of_readLineEnd? lineEnds) (List.dropWhile_suffix _).length_le)

/-- The rest of a text in three quotation marks, which may extend over several lines. Line ends are
kept as they are written, unless they are escaped. `done` holds what has been read, latest first. -/
def readMultiline? (done : List Char) (text : List Char) : Option (String × List Char) :=
  match closingQuotes? '"' text with
  | some (run, kept) =>
      some (String.ofList (done.reverse ++ List.replicate kept '"'), text.drop run)
  | none =>
      match text with
      | [] => none
      | '\n' :: rest => readMultiline? ('\n' :: done) rest
      | '\r' :: '\n' :: rest => readMultiline? ('\n' :: '\r' :: done) rest
      | '\\' :: rest =>
          match _ : readContinuation? rest with
          | some next => readMultiline? done next
          | none =>
              match readEscape? rest with
              | some (character, size) => readMultiline? (character :: done) (rest.drop size)
              | none => none
      | character :: rest =>
          if isPrintable character then readMultiline? (character :: done) rest else none
termination_by text.length
decreasing_by
  · simp
  · simp only [List.length_cons]
    omega
  · have shorter := length_le_of_readContinuation? ‹_›
    simp only [List.length_cons]
    omega
  · simp only [List.length_drop, List.length_cons]
    omega
  · simp

/-- The rest of a text in apostrophes on one line, in which nothing is escaped. -/
def readLiteral? (text : List Char) : Option (String × List Char) :=
  match text.span fun character => isPrintable character && character != '\'' with
  | (content, '\'' :: rest) => some (String.ofList content, rest)
  | _ => none

/-- The rest of a text in three apostrophes, in which nothing is escaped. `done` holds what has been
read, latest first. -/
def readMultilineLiteral? (done : List Char) (text : List Char) : Option (String × List Char) :=
  match closingQuotes? '\'' text with
  | some (run, kept) =>
      some (String.ofList (done.reverse ++ List.replicate kept '\''), text.drop run)
  | none =>
      match text with
      | [] => none
      | '\n' :: rest => readMultilineLiteral? ('\n' :: done) rest
      | '\r' :: '\n' :: rest => readMultilineLiteral? ('\n' :: '\r' :: done) rest
      | character :: rest =>
          if isPrintable character then readMultilineLiteral? (character :: done) rest else none

/-- A text without the line end it begins with, if it begins with one. -/
def dropLineEnd (text : List Char) : List Char :=
  (readLineEnd? text).getD text

/-- The quoted text that a text begins with. -/
def readString? : List Char → Option (String × List Char)
  | '"' :: '"' :: '"' :: rest => readMultiline? [] (dropLineEnd rest)
  | '"' :: rest => readQuoted? [] rest
  | '\'' :: '\'' :: '\'' :: rest => readMultilineLiteral? [] (dropLineEnd rest)
  | '\'' :: rest => readLiteral? rest
  | _ => none

/-- Whether a character may stand in a key without quotation marks. -/
def isKeyCharacter (character : Char) : Bool :=
  character.isAlphanum || character == '_' || character == '-'

/-- The simple key that a text begins with. -/
def readSimpleKey? : List Char → Option (String × List Char)
  | '"' :: rest => readQuoted? [] rest
  | '\'' :: rest => readLiteral? rest
  | text =>
      match text.span isKeyCharacter with
      | ([], _) => none
      | (key, rest) => some (String.ofList key, rest)

/-- The dotted key that a text begins with, as its at most `parts` simple keys. Its separators may
not be line ends. -/
def readDottedKey? (parts : Nat) (text : List Char) : Option (List String × List Char) :=
  match parts with
  | 0 => none
  | parts + 1 => do
      let (first, rest) ← readSimpleKey? (skipSeparators text)
      match skipSeparators rest with
      | '.' :: more => do
          let (others, rest) ← readDottedKey? parts more
          return (first :: others, rest)
      | rest => return ([first], rest)

/-- The number of values that may lie within one another, and of the simple keys that a key may
have. -/
def depthLimit : Nat := 80

/-- The key that a text begins with, as its simple keys. -/
def readKey? (text : List Char) : Option (List String × List Char) :=
  readDottedKey? depthLimit text

end Metrology.Settings

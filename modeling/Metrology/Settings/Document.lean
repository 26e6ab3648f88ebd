import Metrology.Settings.Lexeme
import Metrology.Settings.Number
import Metrology.Settings.Value
import Metrology.Text.Blank

/-!
# Settings files

A settings file is a sequence of lines, each empty, a header that names the table that the lines
after it belong to, or a key with its value. Nothing may be defined twice. `Document.read?` gives
the entries of the whole file.

Lists and tables between braces nest, to a limited depth. Their readers carry the depth that is left
and a bound on the number of steps. Every step but the one from a list to its items takes at least a
character, so a bound of twice the length of the text is never reached.
-/

namespace Metrology.Settings

/-- Whether a character may stand in a number, a truth value or a date. -/
def isWordCharacter (character : Char) : Bool :=
  character.isAlphanum || ['+', '-', '_', '.', ':'].contains character

/-- The number, truth value or date that a text begins with. A date and a time may have a blank
between them. -/
def readScalar? (text : List Char) : Option (List Char) :=
  let (word, rest) := text.span isWordCharacter
  match readDate? word, rest with
  | some [], ' ' :: afterBlank =>
      match afterBlank with
      | digit :: _ =>
          if digit.isDigit then
            let (time, rest) := afterBlank.span isWordCharacter
            if isMoment (word ++ ' ' :: time) then some rest else none
          else some rest
      | [] => some rest
  | _, _ => if isScalar word then some rest else none

mutual

/-- The value that a text begins with, in which values lie within one another up to a depth. -/
def readValue? (limit depth : Nat) (text : List Char) : Option (Value × List Char) :=
  match limit with
  | 0 => none
  | limit + 1 =>
      match text, depth with
      | '[' :: _, 0 | '\x7b' :: _, 0 => none
      | '[' :: rest, depth + 1 => do
          let (items, rest) ← readItems? limit depth (← skipLines? false rest)
          return (.array items, rest)
      | '\x7b' :: rest, depth + 1 => do
          let (entries, rest) ← readMembers? limit depth [] (← skipLines? false rest)
          return (.table .inline entries, rest)
      | first :: _, _ =>
          if first = '"' ∨ first = '\'' then
            (readString? text).map fun (content, rest) => (.text content, rest)
          else (readScalar? text).map (.scalar, ·)
      | [], _ => none

/-- The items of a list up to its closing bracket. -/
def readItems? (limit depth : Nat) (text : List Char) : Option (List Value × List Char) :=
  match limit with
  | 0 => none
  | limit + 1 =>
      match text with
      | ']' :: rest => some ([], rest)
      | _ => do
          let (item, rest) ← readValue? limit depth text
          match ← skipLines? false rest with
          | ',' :: rest => do
              let (items, rest) ← readItems? limit depth (← skipLines? false rest)
              return (item :: items, rest)
          | ']' :: rest => return ([item], rest)
          | _ => none

/-- The entries of a table up to its closing brace, added to those before them. Lines may end and
comments may stand anywhere but within a key. -/
def readMembers? (limit depth : Nat) (entries : Entries) (text : List Char) :
    Option (Entries × List Char) :=
  match limit with
  | 0 => none
  | limit + 1 =>
      match text with
      | '\x7d' :: rest => some (entries, rest)
      | _ => do
          let (path, rest) ← readKey? text
          let '=' :: rest ← skipLines? false rest | none
          let (value, rest) ← readValue? limit depth (← skipLines? false rest)
          let entries ← entries.insert? path.dropLast (path.getLastD "") value
          match ← skipLines? false rest with
          | ',' :: rest => readMembers? limit depth entries (← skipLines? false rest)
          | '\x7d' :: rest => return (entries, rest)
          | _ => none

end

/-- What has been read of a settings file. -/
structure Document where
  entries : Entries := []
  /-- The table that keys belong to. -/
  current : List String := []

namespace Document

/-- The document after the header of a table. -/
def open? (document : Document) (path : List String) : Option Document := do
  let entries ← document.entries.open? path.dropLast (path.getLastD "")
  return ⟨entries, path⟩

/-- The document after a repeated header. -/
def append? (document : Document) (path : List String) : Option Document := do
  let entries ← document.entries.append? path.dropLast (path.getLastD "")
  return ⟨entries, path⟩

/-- The document after a key with its value. -/
def insert? (document : Document) (path : List String) (value : Value) : Option Document := do
  let entries ←
    Entries.update? (fun table => table.insert? path.dropLast (path.getLastD "") value) false
      document.current document.entries
  return { document with entries := entries }

/-- The document after the line that a text begins with, and the lines that follow. -/
def readLine? (document : Document) (text : List Char) : Option (Document × List Char) := do
  match skipSeparators text with
  | '[' :: '[' :: rest =>
      let (path, rest) ← readKey? rest
      let ']' :: ']' :: rest := rest | none
      return (← document.append? path, ← finishLine? rest)
  | '[' :: rest =>
      let (path, rest) ← readKey? rest
      let ']' :: rest := rest | none
      return (← document.open? path, ← finishLine? rest)
  | line =>
      match finishLine? line with
      | some rest => return (document, rest)
      | none =>
          let (path, rest) ← readKey? line
          let '=' :: rest := rest | none
          let value := skipSeparators rest
          let (value, rest) ← readValue? (2 * value.length + 1) depthLimit value
          return (← document.insert? path value, ← finishLine? rest)

/-- The document after at most `limit` lines. -/
def readLines? (limit : Nat) (document : Document) (text : List Char) : Option Document :=
  match text with
  | [] => some document
  | _ =>
      match limit with
      | 0 => none
      | limit + 1 => do
          let (next, rest) ← document.readLine? text
          readLines? limit next rest

/-- The entries of a settings file, if it is well-formed. -/
def read? (text : String) : Option Entries :=
  let content := Text.dropByteOrderMark text.toList
  (readLines? content.length {} content).map Document.entries

end Document

end Metrology.Settings

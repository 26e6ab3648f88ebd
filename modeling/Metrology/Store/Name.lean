import Metrology.Text.Blank

/-!
# Names

A stored value needs a name that cannot be taken for anything else in an expression or on a command
line: no operator, no keyword, no command word, and nothing that begins as a number, a sign or a
power begins.
-/

namespace Metrology

/-- The reasons for which a text cannot name a stored value. -/
inductive NameError where
  | reserved (name : String)
  /-- The text is empty, contains a blank, or begins as another token does. -/
  | invalid (name : String)
deriving DecidableEq, Repr

def NameError.message : NameError → String
  | reserved name => "\"" ++ name ++ "\" is a reserved word"
  | invalid name => "\"" ++ name ++ "\" is not a valid name"

namespace Name

/-- The words with a meaning of their own. -/
def reservedWords : List String :=
  ["+", "-", "*", "x", "/", "ans", "neg", "is", "lock", "in", "clear", "list", "constants",
    "units", "help", "quit", "exit"]

/-- Whether a name may begin with a character. -/
def canBegin (character : Char) : Bool :=
  !(character.isDigit || ['^', '-', '+', '.', '±'].contains character)

/-- Whether a text has the form of a name. -/
def isWellFormed : List Char → Bool
  | [] => false
  | first :: rest => canBegin first && (first :: rest).all fun character => !Text.isBlank character

/-- Whether a text can name a stored value. -/
def check (name : String) : Except NameError Unit :=
  if reservedWords.contains name then .error (.reserved name)
  else if isWellFormed name.toList then .ok ()
  else .error (.invalid name)

end Name

end Metrology

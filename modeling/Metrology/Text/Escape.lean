/-!
# JSON strings

A JSON string stands between quotation marks. Inside, quotation marks, backslashes and the control
characters below the blank are escaped, the five that have a short escape by it and the others by
four hexadecimal digits. Every other character is written as it is.
-/

namespace Metrology.Text

/-- A character as it stands inside a JSON string. -/
def jsonCharacter (character : Char) : List Char :=
  match character with
  | '"' => ['\\', '"']
  | '\\' => ['\\', '\\']
  | '\x08' => ['\\', 'b']
  | '\x0c' => ['\\', 'f']
  | '\n' => ['\\', 'n']
  | '\r' => ['\\', 'r']
  | '\t' => ['\\', 't']
  | other =>
      if other.toNat < 0x20 then
        '\\' :: 'u' :: List.leftpad 4 '0' (Nat.toDigits 16 other.toNat)
      else [other]

def jsonString (text : String) : String :=
  String.ofList ('"' :: (text.toList.flatMap jsonCharacter ++ ['"']))

end Metrology.Text

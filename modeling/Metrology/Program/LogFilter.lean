import Metrology.Text.Alphanumeric
import Metrology.Text.Blank

/-!
# Log filters

The log filter of the configuration is a list of directives with commas between them. A directive is
a level, a target, or both with an equals sign between them, and may name a span and one of its
fields in brackets. A program whose filter is malformed does not start.
-/

namespace Metrology.LogFilter

/-- Whether a text is the number or the name of a level. The empty text is one. -/
def isLevel (text : List Char) : Bool :=
  let digits := match text with
    | '+' :: rest => rest
    | rest => rest
  let names := ["", "error", "warn", "info", "debug", "trace", "off"]
  (!digits.isEmpty && digits.all Char.isDigit && Nat.ofDigitChars 10 digits 0 ≤ 5) ||
    names.contains (String.ofList (text.map Char.toLower))

/-- Whether a directive without a span may begin with a character. -/
def canBegin (character : Char) : Bool :=
  Text.isAlphanumeric character || ['-', ':', '_'].contains character

/-- Where in a directive the reader stands. -/
inductive Position where
  | start
  /-- In a level or a target. -/
  | name
  /-- In the name of a span. -/
  | span
  /-- In a field of a span; `isEmpty` says whether it has no character yet. -/
  | field (isEmpty : Bool)
  /-- After the fields of a span. -/
  | fields
  /-- After a span. -/
  | target
  /-- In a level after an equals sign, with the characters read so far, latest first. -/
  | level (done : List Char)

/-- The position after one more character, if the character may stand there. -/
def next? : Position → Char → Option Position
  | .start, '[' => some .span
  | .start, character => if canBegin character then some .name else none
  | .name, '=' => some (.level [])
  | .name, '[' => some .span
  | .name, _ => some .name
  | .target, '=' => some (.level [])
  | .span, ']' => some .target
  | .span, '\x7b' => some (.field true)
  | .span, _ => some .span
  | .field isEmpty, '\x7d' => if isEmpty then none else some .fields
  | .field _, _ => some (.field false)
  | .fields, ']' => some .target
  | .level done, character => some (.level (character :: done))
  | _, _ => none

/-- Whether a directive is well-formed. Blanks around it mean nothing, unless it ends in a level
after an equals sign, which must not have any. -/
def isDirective (text : List Char) : Bool :=
  match (Text.trim text).foldlM next? .start with
  | some .name | some .target => true
  | some (.level done) => isLevel done.reverse && Text.trim text == text
  | _ => false

/-- Whether a filter is well-formed. Empty directives are left out. -/
def isValid (filter : String) : Bool :=
  (filter.toList.splitOn ',').all fun directive => directive.isEmpty || isDirective directive

end Metrology.LogFilter

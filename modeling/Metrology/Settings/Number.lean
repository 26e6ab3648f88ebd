import Metrology.Decimal.Basic
import Metrology.Decimal.Integer

/-!
# Numbers and dates in a settings file

Settings use neither numbers nor dates, but a file that holds a malformed one is refused. The
predicates of this file say which words are well-formed.
-/

namespace Metrology.Settings

/-- The digits of a number without the underscores between them, provided that every underscore
stands between two digits. -/
def readDigits? (isDigit : Char → Bool) (text : List Char) : Option (List Char) :=
  let groups := text.splitOn '_'
  if groups.all fun group => !group.isEmpty && group.all isDigit then some groups.flatten else none

def hasSign : List Char → Bool
  | '+' :: _ | '-' :: _ => true
  | _ => false

def dropSign : List Char → List Char
  | '+' :: text | '-' :: text => text
  | text => text

/-- The digits of a decimal whole number, given without its sign. There is no leading zero, unless
the number has a sign and an underscore after it. -/
def readWhole? (isSigned : Bool) (text : List Char) : Option (List Char) :=
  match isSigned, text with
  | true, '_' :: rest => readDigits? Char.isDigit rest
  | _, _ => do
      let digits ← readDigits? Char.isDigit text
      if digits.head? = some '0' ∧ 1 < digits.length then none else some digits

/-- Whether a character is a digit of the given radix of at most sixteen. -/
def isDigitOf (radix : Nat) (character : Char) : Bool :=
  (Decimal.digitValue? radix character).isSome

/-- Whether a word is an integer that 128 bits can hold. -/
def isInteger (word : List Char) : Bool :=
  let inRadix (radix : Nat) (text : List Char) : Bool :=
    match readDigits? (isDigitOf radix) text >>= Decimal.readNat? radix with
    | some value => value < Nat.pow 2 128
    | none => false
  match word with
  | '0' :: 'x' :: digits => inRadix 16 digits
  | '0' :: 'o' :: digits => inRadix 8 digits
  | '0' :: 'b' :: digits => inRadix 2 digits
  | _ =>
      match readWhole? (hasSign word) (dropSign word) with
      | some digits =>
          let limit := if word.head? = some '-' then Nat.pow 2 127 + 1 else Nat.pow 2 128
          Decimal.ofDigits digits < limit
      | none => false

/-- The exponent that a text consists of: nothing, or `e` or `E` and an integer that may have
leading zeros. -/
def readExponent? : List Char → Option Int
  | [] => some 0
  | 'e' :: text | 'E' :: text => do
      let digits ← readDigits? Char.isDigit (dropSign text)
      let magnitude := Decimal.ofDigits digits
      return if text.head? = some '-' then -magnitude else magnitude
  | _ => none

/-- Whether a word is a number with a fraction or an exponent whose magnitude is not past the
largest finite number, or stands for infinity or for no number. -/
def isReal (word : List Char) : Bool :=
  let unsigned := dropSign word
  if unsigned = "inf".toList ∨ unsigned = "nan".toList then true
  else
    let isPart (character : Char) : Bool := character.isDigit || character == '_'
    let (whole, rest) := unsigned.span isPart
    let decimal? : Option Decimal := do
      let wholeDigits ← readWhole? (hasSign word) whole
      match rest with
      | '.' :: afterPoint =>
          let (fraction, power) := afterPoint.span isPart
          let fractionDigits ← readDigits? Char.isDigit fraction
          let exponent ← readExponent? power
          return ⟨false, Decimal.ofDigits (wholeDigits ++ fractionDigits),
            exponent - fractionDigits.length⟩
      | power =>
          if power.isEmpty then none
          else return ⟨false, Decimal.ofDigits wholeDigits, ← readExponent? power⟩
    match decimal? with
    | some decimal => decimal.toFloat.isFinite
    | none => false

/-- The number that a fixed count of digits at the beginning of a text denotes. -/
def readFixed? (count : Nat) (text : List Char) : Option (Nat × List Char) :=
  let digits := text.take count
  if digits.length = count ∧ digits.all Char.isDigit then
    some (Decimal.ofDigits digits, text.drop count)
  else none

def daysIn (year month : Nat) : Nat :=
  if month = 2 then
    if year % 4 = 0 ∧ (year % 100 ≠ 0 ∨ year % 400 = 0) then 29 else 28
  else if month ∈ [4, 6, 9, 11] then 30
  else 31

/-- What follows the date that a text begins with. -/
def readDate? (text : List Char) : Option (List Char) := do
  let (year, rest) ← readFixed? 4 text
  let '-' :: rest := rest | none
  let (month, rest) ← readFixed? 2 rest
  let '-' :: rest := rest | none
  let (day, rest) ← readFixed? 2 rest
  if 1 ≤ month ∧ month ≤ 12 ∧ 1 ≤ day ∧ day ≤ daysIn year month then some rest else none

/-- What follows the seconds that a text begins with, whole or with a fraction. -/
def readSeconds? (text : List Char) : Option (List Char) := do
  let (second, rest) ← readFixed? 2 text
  if 60 < second then none
  else
    match rest with
    | '.' :: fraction =>
        let (digits, rest) := fraction.span Char.isDigit
        if digits.isEmpty then none else some rest
    | _ => some rest

/-- What follows the time of day that a text begins with. The seconds may be left out. -/
def readTime? (text : List Char) : Option (List Char) := do
  let (hour, rest) ← readFixed? 2 text
  let ':' :: rest := rest | none
  let (minute, rest) ← readFixed? 2 rest
  if 23 < hour ∨ 59 < minute then none
  else
    match rest with
    | ':' :: seconds => readSeconds? seconds
    | _ => some rest

/-- Whether a text is empty or the offset of a time from the universal one. -/
def isOffset (text : List Char) : Bool :=
  let isDistance (text : List Char) : Bool :=
    match readFixed? 2 text with
    | some (hours, ':' :: rest) =>
        match readFixed? 2 rest with
        | some (minutes, []) => hours < 24 && minutes < 60
        | _ => false
    | _ => false
  match text with
  | [] | ['Z'] | ['z'] => true
  | '+' :: distance | '-' :: distance => isDistance distance
  | _ => false

/-- Whether a word is a date, a time of day, or both. A blank may stand between the two. -/
def isMoment (word : List Char) : Bool :=
  match readDate? word with
  | some [] => true
  | some (mark :: time) =>
      ['T', 't', ' '].contains mark && (readTime? time).any isOffset
  | none => readTime? word == some []

/-- Whether a word is a number, a truth value or a date. -/
def isScalar (word : List Char) : Bool :=
  word = "true".toList || word = "false".toList || isInteger word || isReal word || isMoment word

end Metrology.Settings

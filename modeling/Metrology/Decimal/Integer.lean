import Metrology.Dimension.Basic

/-!
# Written integers

Powers and the integer columns of tables are 32-bit integers, written in digits with an optional
sign. A number outside the range is no such integer, however it is written.
-/

namespace Metrology.Decimal

/-- The value of a digit in a radix of at most sixteen. Letters count in either case. -/
def digitValue? (radix : Nat) (character : Char) : Option Nat :=
  let code := character.toNat
  let value? :=
    if character.isDigit then some (code - 48)
    else if 'a' ≤ character ∧ character ≤ 'f' then some (code - 87)
    else if 'A' ≤ character ∧ character ≤ 'F' then some (code - 55)
    else none
  value?.filter fun value => value < radix

/-- The natural number that a nonempty run of digits denotes in a radix. -/
def readNat? (radix : Nat) (digits : List Char) : Option Nat :=
  if digits.isEmpty then none
  else
    digits.foldlM (fun value digit => (digitValue? radix digit).map (radix * value + ·)) 0

/-- The integer that digits with an optional sign denote in a radix. -/
def readInt? (radix : Nat) : List Char → Option Int
  | '+' :: digits => (readNat? radix digits).map Int.ofNat
  | '-' :: digits => (readNat? radix digits).map fun value => -Int.ofNat value
  | digits => (readNat? radix digits).map Int.ofNat

/-- The 32-bit integer that digits with an optional sign denote in a radix. -/
def readInt32? (radix : Nat) (text : List Char) : Option Int32 :=
  ((readInt? radix text).filter fun value => Dimension.InRange value).map Int32.ofInt

/-- A 32-bit integer that is read has the value of the integer that is written. -/
theorem readInt?_of_readInt32? {radix : Nat} {text : List Char} {value : Int32}
    (isValue : readInt32? radix text = some value) :
    readInt? radix text = some value.toInt := by
  simp only [readInt32?, Option.map_eq_some_iff, Option.filter_eq_some_iff,
    decide_eq_true_eq] at isValue
  rcases isValue with ⟨integer, ⟨isInteger, inRange⟩, rfl⟩
  rw [isInteger, Int32.toInt_ofInt_of_le inRange.1 inRange.2]

end Metrology.Decimal

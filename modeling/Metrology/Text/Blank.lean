/-!
# Blank characters

Expressions, unit literals, names and table cells are all divided and trimmed at the characters of
the Unicode property White_Space. This file gives that property as a predicate and the three ways
in which text is read up to it: trimming, removing every blank, and dividing into words. A byte
order mark is no blank; it is dropped where a file begins with it.
-/

namespace Metrology.Text

/-- The characters that have the Unicode property White_Space. -/
def isBlank (character : Char) : Bool :=
  let code := character.toNat
  (0x09 ≤ code && code ≤ 0x0D) || code == 0x20 || code == 0x85 || code == 0xA0 ||
    code == 0x1680 || (0x2000 ≤ code && code ≤ 0x200A) || code == 0x2028 || code == 0x2029 ||
    code == 0x202F || code == 0x205F || code == 0x3000

theorem isBlank_eq_false_of_isDigit {character : Char} (digital : character.isDigit = true) :
    isBlank character = false := by
  have bounds : 48 ≤ character.toNat ∧ character.toNat ≤ 57 := by
    simpa [Char.isDigit, UInt32.le_iff_toNat_le] using digital
  simp only [isBlank, Bool.or_eq_false_iff, Bool.and_eq_false_iff, decide_eq_false_iff_not,
    beq_eq_false_iff_ne]
  omega

def trimEnd (text : List Char) : List Char :=
  (text.reverse.dropWhile isBlank).reverse

def trim (text : List Char) : List Char :=
  trimEnd (text.dropWhile isBlank)

def compact (text : List Char) : List Char :=
  text.filter fun character => !isBlank character

/-- The maximal runs of characters that are not blank, in order. -/
def words (text : String) : List String :=
  ((text.toList.splitOnP isBlank).filter fun word => !word.isEmpty).map String.ofList

/-- Text without a byte order mark at its beginning. -/
def dropByteOrderMark : List Char → List Char
  | '\ufeff' :: text => text
  | text => text

end Metrology.Text

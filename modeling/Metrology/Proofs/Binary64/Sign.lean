import Metrology.Proofs.Binary64.Encoding
import Metrology.Scalar

/-!
# Signs of binary64 numbers

The magnitude and the negation of a number differ from it in the sign alone, so both are finite just
if the number is. A number is its own magnitude just if its sign bit is clear.
-/

namespace Metrology.Binary64

open Float.Model
open Float.Model.UnpackedFloat hiding pack unpack

/-- Whether the sign of a number's parts is negative. What is no number has no sign. -/
def isNegative : UnpackedFloat → Bool
  | .infinity .negative | .zero .negative | .finite .negative _ _ _ => true
  | _ => false

variable {parts : UnpackedFloat} {sign : Sign} {exponent : BitVec 11} {mantissa : BitVec 52}

theorem Encodable.abs (encodable : Encodable parts) : Encodable parts.abs := by
  cases encodable with
  | infinity => exact .infinity _
  | notANumber => exact .notANumber
  | zero => exact .zero _
  | finite canonical bounded => exact .finite canonical bounded

theorem Encodable.neg (encodable : Encodable parts) : Encodable parts.neg := by
  cases encodable with
  | infinity => exact .infinity _
  | notANumber => exact .notANumber
  | zero => exact .zero _
  | finite canonical bounded => exact .finite canonical bounded

theorem unpacked_abs (number : Float) : unpacked number.abs = (unpacked number).abs :=
  unpacked_packed (encodable_unpacked number).abs

theorem unpacked_neg (number : Float) : unpacked (-number) = (unpacked number).neg :=
  unpacked_packed (encodable_unpacked number).neg

@[simp]
theorem isFinite_abs (number : Float) : number.abs.isFinite = number.isFinite := by
  change (unpacked number.abs).isFinite = (unpacked number).isFinite
  rw [unpacked_abs]
  cases unpacked number <;> rfl

@[simp]
theorem isFinite_neg (number : Float) : (-number).isFinite = number.isFinite := by
  change (unpacked (-number)).isFinite = (unpacked number).isFinite
  rw [unpacked_neg]
  cases unpacked number <;> rfl

theorem Fields.isNegative_eq (fields : Fields sign exponent mantissa parts)
    (isNumber : parts ≠ .notANumber) : isNegative parts = (sign.toBitVec == 1#1) := by
  cases fields with
  | notANumber => exact False.elim (isNumber rfl)
  | _ => cases sign <;> rfl

/-- The sign bit of a number is that of its parts. -/
theorem signOf_eq_isNegative (number : Float) :
    Decimal.signOf number = isNegative (unpacked number) := by
  have isBit : Decimal.signOf number = decide (2 ^ 63 ≤ number.toBits.toBitVec.toNat) := rfl
  by_cases isNumber : unpacked number = .notANumber
  · have isBits : number.toBits.toBitVec = packedNaN .binary64 := by
      have repacked := packed_unpacked number
      rw [isNumber] at repacked
      rw [← repacked]
      rfl
    rw [isBit, isBits, isNumber]
    decide
  · rcases exists_fields_unpacked number with ⟨sign, exponent, mantissa, fields, isBits⟩
    have exponentLt : exponent.toNat < 2 ^ 11 := exponent.isLt
    have mantissaLt : mantissa.toNat < 2 ^ 52 := mantissa.isLt
    rw [isBit, isBits, toNat_packComponents, fields.isNegative_eq isNumber]
    cases sign with
    | negative =>
        change decide (2 ^ 63 ≤ 1 * 2 ^ 63 + _ + _) = true
        exact decide_eq_true (by omega)
    | positive =>
        change decide (2 ^ 63 ≤ 0 * 2 ^ 63 + _ + _) = false
        exact decide_eq_false (by omega)

@[simp]
theorem signOf_abs (number : Float) : Decimal.signOf number.abs = false := by
  rw [signOf_eq_isNegative, unpacked_abs]
  cases unpacked number <;> rfl

/-- A number whose sign bit is clear is its own magnitude. -/
theorem abs_of_signOf_eq_false {number : Float} (unsigned : Decimal.signOf number = false) :
    number.abs = number := by
  rw [signOf_eq_isNegative] at unsigned
  have sameParts : (unpacked number).abs = unpacked number := by
    generalize unpacked number = parts at unsigned
    cases parts with
    | notANumber => rfl
    | infinity sign | zero sign | finite sign =>
        cases sign with
        | negative => cases unsigned
        | positive => rfl
  rw [← packed_unpacked number.abs, unpacked_abs, sameParts, packed_unpacked]

end Metrology.Binary64

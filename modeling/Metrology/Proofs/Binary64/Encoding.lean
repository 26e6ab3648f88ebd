import Mathlib.Algebra.Group.Nat.Defs
import Metrology.Decimal.Shortest

/-!
# The encoding of binary64 numbers

A binary64 number is 64 bits: a sign, an exponent field and a mantissa field. Arithmetic takes the
number apart into a sign, a significand and a power of two, and puts the result together again.
Nothing is lost on the way: `packed_unpacked` and `unpacked_packed` say that the two are inverse to
each other on the parts that a number can have.
-/

namespace Metrology.Binary64

open Float.Model
open Float.Model.UnpackedFloat hiding pack unpack

/-- Whether a significand and a power of two are those of a finite number: the significand has at
most 53 bits, and fewer only at the least power. -/
structure Canonical (significand : Nat) (exponent : Int) : Prop where
  lt : significand < 2 ^ 53
  le : -1074 ≤ exponent
  normal : 2 ^ 52 ≤ significand ∨ exponent = -1074

/-- The parts that a number can have. -/
inductive Encodable : UnpackedFloat → Prop where
  | infinity (sign : Sign) : Encodable (.infinity sign)
  | notANumber : Encodable .notANumber
  | zero (sign : Sign) : Encodable (.zero sign)
  | finite {sign : Sign} {significand : Nat} {exponent : Int} {pos : 0 < significand}
      (canonical : Canonical significand exponent) (bounded : exponent ≤ 971) :
      Encodable (.finite sign significand exponent pos)

/-- What the three fields of an encoding stand for. -/
inductive Fields (sign : Sign) (exponent : BitVec 11) (mantissa : BitVec 52) :
    UnpackedFloat → Prop where
  | infinity (top : exponent = -1#11) (isZero : mantissa = 0#52) :
      Fields sign exponent mantissa (.infinity sign)
  | notANumber (top : exponent = -1#11) (notZero : mantissa ≠ 0#52) :
      Fields sign exponent mantissa .notANumber
  | zero (bottom : exponent = 0#11) (isZero : mantissa = 0#52) :
      Fields sign exponent mantissa (.zero sign)
  | subnormal {significand : Nat} {pos : 0 < significand} (bottom : exponent = 0#11)
      (isSignificand : significand = mantissa.toNat) :
      Fields sign exponent mantissa (.finite sign significand (-1074) pos)
  | normal {significand : Nat} {power : Int} {pos : 0 < significand} (lower : 0 < exponent.toNat)
      (upper : exponent.toNat < 2047) (isSignificand : significand = 2 ^ 52 + mantissa.toNat)
      (isPower : power = exponent.toNat - 1075) :
      Fields sign exponent mantissa (.finite sign significand power pos)

def unpacked (number : Float) : UnpackedFloat :=
  number.toModel.unpack

def packed (parts : UnpackedFloat) : Float :=
  ⟨Float.Model.pack parts⟩

variable {sign : Sign} {exponent : BitVec 11} {mantissa : BitVec 52}
  {parts others : UnpackedFloat}

theorem exponentBias_eq : (Format.binary64.exponentBias : Int) = 1023 :=
  rfl

theorem toNat_one_append (mantissa : BitVec 52) :
    (1#1 ++ mantissa).toNat = 2 ^ 52 + mantissa.toNat := by
  rw [BitVec.toNat_append, ← Nat.shiftLeft_add_eq_or_of_lt mantissa.isLt]
  rfl

theorem ofBitVec_toBitVec (sign : Sign) : Sign.ofBitVec sign.toBitVec = sign := by
  cases sign <;> rfl

theorem toBitVec_ofBitVec (bit : BitVec 1) : (Sign.ofBitVec bit).toBitVec = bit := by
  revert bit
  decide

theorem unpackSign_packComponents (sign : Sign) (exponent : BitVec 11) (mantissa : BitVec 52) :
    unpackSign (packComponents .binary64 sign exponent mantissa) = sign.toBitVec := by
  change (sign.toBitVec ++ exponent ++ mantissa).extractLsb' 63 1 = sign.toBitVec
  rw [BitVec.extractLsb'_append_eq_of_le (by decide),
    BitVec.extractLsb'_append_eq_of_le (by decide)]
  cases sign <;> rfl

/-- An encoding is its three fields in a row. -/
theorem packComponents_unpack (bits : BitVec 64) :
    packComponents .binary64 (.ofBitVec (@unpackSign .binary64 bits))
      (@unpackExponent .binary64 bits) (@unpackMantissa .binary64 bits) =
        bits := by
  change (Sign.ofBitVec (bits.extractLsb' 63 1)).toBitVec ++ bits.extractLsb' 52 11 ++
    bits.extractLsb' 0 52 = bits
  rw [toBitVec_ofBitVec,
    BitVec.extractLsb'_append_extractLsb'_eq_extractLsb' (show 63 = 52 + 11 from rfl),
    BitVec.extractLsb'_append_extractLsb'_eq_extractLsb' (show 52 = 0 + 52 from rfl)]
  simp

theorem toNat_packComponents (sign : Sign) (exponent : BitVec 11) (mantissa : BitVec 52) :
    (packComponents .binary64 sign exponent mantissa).toNat =
      sign.toBitVec.toNat * 2 ^ 63 + exponent.toNat * 2 ^ 52 + mantissa.toNat := by
  change (sign.toBitVec ++ exponent ++ mantissa).toNat = _
  rw [BitVec.toNat_append, ← Nat.shiftLeft_add_eq_or_of_lt mantissa.isLt, BitVec.toNat_append,
    ← Nat.shiftLeft_add_eq_or_of_lt exponent.isLt, Nat.shiftLeft_eq, Nat.shiftLeft_eq]
  omega

theorem fields_unpack (bits : BitVec 64) :
    Fields (.ofBitVec (@unpackSign .binary64 bits))
      (@unpackExponent .binary64 bits) (@unpackMantissa .binary64 bits)
      (UnpackedFloat.unpack .binary64 bits) := by
  have exponentLt : (@unpackExponent .binary64 bits).toNat < 2048 :=
    (@unpackExponent .binary64 bits).isLt
  unfold UnpackedFloat.unpack
  dsimp only
  by_cases top : @unpackExponent .binary64 bits = -1#11
  · rw [if_pos top]
    by_cases isZero : @unpackMantissa .binary64 bits = 0#52
    · rw [if_pos isZero]
      exact .infinity top isZero
    · rw [if_neg isZero]
      exact .notANumber top isZero
  rw [if_neg top]
  by_cases bottom : @unpackExponent .binary64 bits = 0#11
  · rw [if_pos bottom]
    by_cases isZero : @unpackMantissa .binary64 bits = 0#52
    · rw [dif_pos isZero]
      exact .zero bottom isZero
    · rw [dif_neg isZero, bottom]
      exact .subnormal rfl rfl
  · rw [if_neg bottom]
    refine .normal ?_ ?_ (toNat_one_append _) ?_
    · simp only [BitVec.toNat_eq, BitVec.toNat_ofNat, Nat.zero_mod] at bottom
      omega
    · simp only [BitVec.neg_one_eq_allOnes, BitVec.toNat_eq, BitVec.toNat_allOnes] at top
      omega
    · rw [exponentBias_eq]
      change _ - (1023 + 52) = _
      omega

namespace Fields

theorem unique (fields : Fields sign exponent mantissa parts)
    (alsoFields : Fields sign exponent mantissa others) : parts = others := by
  have top_ne_bottom : (-1#11) ≠ 0#11 := by decide
  cases fields <;> cases alsoFields
  case subnormal.subnormal isSignificand _ _ _ isAlso =>
    cases isSignificand.trans isAlso.symm
    rfl
  case normal.normal isSignificand isPower _ _ _ _ _ isAlso isAlsoPower =>
    cases isSignificand.trans isAlso.symm
    cases isPower.trans isAlsoPower.symm
    rfl
  -- Two different kinds disagree on the exponent field or on whether the mantissa is zero.
  all_goals first | rfl | (exfalso; simp_all)

theorem encodable (fields : Fields sign exponent mantissa parts) : Encodable parts := by
  have mantissaLt : mantissa.toNat < 2 ^ 52 := mantissa.isLt
  cases fields with
  | infinity => exact .infinity _
  | notANumber => exact .notANumber
  | zero => exact .zero _
  | subnormal _ isSignificand => exact .finite ⟨by omega, by omega, .inr rfl⟩ (by omega)
  | normal => exact .finite ⟨by omega, by omega, .inl (by omega)⟩ (by omega)

theorem pack_eq (fields : Fields sign exponent mantissa parts) (isNumber : parts ≠ .notANumber) :
    UnpackedFloat.pack .binary64 parts = packComponents .binary64 sign exponent mantissa := by
  cases fields with
  | infinity top isZero =>
      subst top isZero
      rfl
  | notANumber => exact False.elim (isNumber rfl)
  | zero bottom isZero =>
      subst bottom isZero
      rfl
  | @subnormal significand pos bottom isSignificand =>
      subst bottom
      have significandLt : significand < 2 ^ 52 := isSignificand ▸ mantissa.isLt
      have notNormal : ¬significand.log2 + 1 = 53 := by
        have := (Nat.log2_lt (Nat.ne_of_gt pos)).mpr significandLt
        omega
      have isMantissa : BitVec.ofNat 52 significand = mantissa := by
        rw [isSignificand, BitVec.ofNat_toNat, BitVec.setWidth_eq]
      change (if significand.log2 + 1 = 53 then _
        else packComponents .binary64 sign 0#11 (BitVec.ofNat 52 significand)) = _
      rw [if_neg notNormal, isMantissa]
  | @normal significand power pos lower upper isSignificand isPower =>
      have mantissaLt : mantissa.toNat < 2 ^ 52 := mantissa.isLt
      have isNormal : significand.log2 + 1 = 53 := by
        rw [(Nat.log2_eq_iff (Nat.ne_of_gt pos)).mpr ⟨show 2 ^ 52 ≤ significand by omega, by omega⟩]
      have biased : (power + Format.binary64.exponentBias + (52 : Nat)).toNat = exponent.toNat := by
        rw [exponentBias_eq]
        omega
      have isMantissa : BitVec.ofNat 52 significand = mantissa := by
        apply BitVec.eq_of_toNat_eq
        rw [BitVec.toNat_ofNat]
        omega
      change (if 2048 ≤ (power + Format.binary64.exponentBias + (52 : Nat)).toNat + 1 then _
        else if significand.log2 + 1 = 53 then
          packComponents .binary64 sign
            (BitVec.ofNat 11 (power + Format.binary64.exponentBias + (52 : Nat)).toNat)
            (BitVec.ofNat 52 significand)
        else _) = _
      rw [biased, if_neg (by omega), if_pos isNormal, isMantissa, BitVec.ofNat_toNat,
        BitVec.setWidth_eq]

end Fields

theorem exists_fields (encodable : Encodable parts) :
    parts = .notANumber ∨ ∃ sign exponent mantissa, Fields sign exponent mantissa parts := by
  cases encodable with
  | infinity sign => exact .inr ⟨sign, -1#11, 0#52, .infinity rfl rfl⟩
  | notANumber => exact .inl rfl
  | zero sign => exact .inr ⟨sign, 0#11, 0#52, .zero rfl rfl⟩
  | @finite sign significand exponent pos canonical bounded =>
      right
      by_cases isNormal : 2 ^ 52 ≤ significand
      · have := canonical.lt
        have := canonical.le
        refine ⟨sign, BitVec.ofNat 11 (exponent + 1075).toNat, BitVec.ofNat 52 significand,
          .normal ?_ ?_ ?_ ?_⟩ <;> rw [BitVec.toNat_ofNat] <;> omega
      · have isBottom := canonical.normal.resolve_left isNormal
        subst isBottom
        refine ⟨sign, 0#11, BitVec.ofNat 52 significand, .subnormal rfl ?_⟩
        rw [BitVec.toNat_ofNat, Nat.mod_eq_of_lt (by omega)]

theorem encodable_unpacked (number : Float) : Encodable (unpacked number) :=
  (fields_unpack _).encodable

/-- Putting parts together and taking them apart again gives the parts. -/
theorem unpacked_packed (encodable : Encodable parts) : unpacked (packed parts) = parts := by
  change UnpackedFloat.unpack .binary64 (UnpackedFloat.pack .binary64 parts) = parts
  by_cases isNumber : parts = .notANumber
  · subst isNumber
    rfl
  rcases exists_fields encodable with notNumber | ⟨sign, exponent, mantissa, fields⟩
  · exact False.elim (isNumber notNumber)
  · have alsoFields := fields_unpack (packComponents .binary64 sign exponent mantissa)
    rw [unpackSign_packComponents, ofBitVec_toBitVec, unpackExponent_packComponents,
      unpackMantissa_packComponents] at alsoFields
    rw [fields.pack_eq isNumber]
    exact alsoFields.unique fields

/-- The fields that a number is encoded with, and its bits. -/
theorem exists_fields_unpacked (number : Float) :
    ∃ sign exponent mantissa, Fields sign exponent mantissa (unpacked number) ∧
      number.toBits.toBitVec = packComponents .binary64 sign exponent mantissa :=
  ⟨_, _, _, fields_unpack number.toBits.toBitVec, (packComponents_unpack _).symm⟩

theorem eq_of_toBits_eq {number other : Float}
    (same : number.toBits.toBitVec = other.toBits.toBitVec) : number = other := by
  rcases number with ⟨⟨⟨bits⟩, _⟩⟩
  rcases other with ⟨⟨⟨otherBits⟩, _⟩⟩
  cases (show bits = otherBits from same)
  rfl

/-- Taking a number apart and putting the parts together again gives the number. -/
theorem packed_unpacked (number : Float) : packed (unpacked number) = number := by
  apply eq_of_toBits_eq
  change UnpackedFloat.pack .binary64 (unpacked number) = number.toBits.toBitVec
  rcases exists_fields_unpacked number with ⟨sign, exponent, mantissa, fields, isBits⟩
  by_cases isNumber : unpacked number = .notANumber
  · -- All bits but those of the one encoding are ruled out by the number's validity.
    have invalid := fields_unpack number.toBits.toBitVec
    change Fields _ _ _ (unpacked number) at invalid
    rw [isNumber] at invalid ⊢
    cases invalid with
    | notANumber top notZero => exact (number.toModel.valid.eq_packedNaN top notZero).symm
  · rw [fields.pack_eq isNumber, isBits]

/-- A power of two above the greatest one makes an infinity. -/
theorem packed_of_overflow {significand : Nat} {power : Int} {pos : 0 < significand}
    (overflow : 971 < power) :
    packed (.finite sign significand power pos) = packed (.infinity sign) := by
  apply eq_of_toBits_eq
  change (if 2048 ≤ (power + Format.binary64.exponentBias + (52 : Nat)).toNat + 1 then
    packedInfinity .binary64 sign else _) = packedInfinity .binary64 sign
  rw [exponentBias_eq, if_pos (by omega)]

end Metrology.Binary64

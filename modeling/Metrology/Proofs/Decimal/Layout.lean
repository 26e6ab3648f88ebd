import Metrology.Proofs.Decimal.Shortest
import Metrology.Proofs.Quantity.Literal
import Metrology.Quantity.Reading

/-!
# Written numbers are numerals

In plain text a decimal number is laid out as a numeral of its own sign and value, whether it is
written positionally or with a power of ten. So a finite number in plain text is a numeral that is
read as the number.
-/

namespace Metrology.Decimal

open LiteralGrammar

variable {digits text : List Char} {value : ℚ} {decimal : Decimal}

/-- Whether a text is a mantissa and what value it has. -/
inductive WritesMantissa (text : List Char) (value : ℚ) : Prop where
  | intro {whole : List Char} {fraction : Option (List Char)} (parts : MantissaParts whole fraction)
      (isText : text = whole ++ pointed fraction)
      (isValue : (ofDigits (whole ++ fraction.getD []) : ℚ) *
        10 ^ (-(fraction.getD []).length : ℤ) = value)

section Digits

theorem isDigits_digitsOf (number : ℕ) : IsDigits (digitsOf number) := by
  refine ⟨?_, fun digit member => isDigit_of_mem_digitsOf member⟩
  exact List.ne_nil_of_length_pos Nat.length_toDigits_pos

theorem isDigit_of_mem_zeros {count : ℕ} {digit : Char}
    (member : digit ∈ List.replicate count '0') : digit.isDigit = true := by
  rw [List.eq_of_mem_replicate member]
  rfl

/-- Zeros before digits change nothing. -/
theorem ofDigits_zeros_append (count : ℕ) (digits : List Char) :
    ofDigits (List.replicate count '0' ++ digits) = ofDigits digits := by
  rw [ofDigits, Nat.ofDigitChars_append, Nat.ofDigitChars_replicate_zero, mul_zero, ofDigits]

/-- Each zero after digits multiplies by ten. -/
theorem ofDigits_append_zeros (digits : List Char) (count : ℕ) :
    ofDigits (digits ++ List.replicate count '0') = 10 ^ count * ofDigits digits := by
  rw [ofDigits, Nat.ofDigitChars_append, Nat.ofDigitChars_replicate_zero, ofDigits]

end Digits

section Mantissa

/-- Digits with the point after some of them are a mantissa, filled up with zeros where need be. -/
theorem writesMantissa_positional (isDigits : IsDigits digits) (point : ℤ) :
    WritesMantissa (positional false digits point)
      (ofDigits digits * 10 ^ (point - digits.length)) := by
  have lengthPos : 0 < digits.length := List.length_pos_of_ne_nil isDigits.1
  unfold positional
  split
  · rename_i noWhole
    have parts : MantissaParts ['0'] (some (List.replicate (-point).toNat '0' ++ digits)) := by
      refine .point ⟨by simp, by simp⟩ fun digit member => ?_
      rcases List.mem_append.mp member with inZeros | inDigits
      · exact isDigit_of_mem_zeros inZeros
      · exact isDigits.2 digit inDigits
    refine .intro parts rfl ?_
    have isLength : (-((List.replicate (-point).toNat '0' ++ digits).length : ℤ)) =
        point - digits.length := by
      rw [List.length_append, List.length_replicate]
      omega
    have isNumber := ofDigits_zeros_append ((-point).toNat + 1) digits
    rw [Option.getD_some, isLength]
    exact congrArg (fun number : ℕ => (number : ℚ) * 10 ^ (point - digits.length)) isNumber
  split
  · rename_i isWhole isInside
    have parts : MantissaParts (digits.take point.toNat) (some (digits.drop point.toNat)) := by
      refine .point ⟨?_, fun digit member => isDigits.2 digit (List.mem_of_mem_take member)⟩
        fun digit member => isDigits.2 digit (List.mem_of_mem_drop member)
      refine List.ne_nil_of_length_pos ?_
      rw [List.length_take]
      omega
    refine .intro parts rfl ?_
    have isLength : (-((digits.drop point.toNat).length : ℤ)) = point - digits.length := by
      rw [List.length_drop]
      omega
    rw [Option.getD_some, isLength, List.take_append_drop]
  · rename_i isWhole isOutside
    have parts :
        MantissaParts (digits ++ List.replicate (point.toNat - digits.length) '0') none := by
      refine .whole ⟨by simp [isDigits.1], fun digit member => ?_⟩
      rcases List.mem_append.mp member with inDigits | inZeros
      · exact isDigits.2 digit inDigits
      · exact isDigit_of_mem_zeros inZeros
    refine .intro parts rfl ?_
    have isPower : point - digits.length = (point.toNat - digits.length : ℕ) := by omega
    rw [Option.getD_none, List.append_nil, ofDigits_append_zeros, isPower, zpow_natCast]
    push_cast
    simp [mul_comm]

/-- Digits with the point after the first of them are a mantissa, before the power of ten. -/
theorem exists_mantissa_scientific (isDigits : IsDigits digits) (exponent : ℤ) :
    ∃ mantissa, WritesMantissa mantissa (ofDigits digits * 10 ^ (1 - digits.length : ℤ)) ∧
      scientific [] digits exponent =
        mantissa ++ 'e' :: ((if exponent < 0 then ['-'] else []) ++ digitsOf exponent.natAbs) := by
  match digits, isDigits with
  | [], isDigits => exact absurd rfl isDigits.1
  | [digit], isDigits =>
      exact ⟨[digit], .intro (.whole isDigits) (by simp [pointed]) (by simp), rfl⟩
  | first :: second :: rest, isDigits =>
      have parts : MantissaParts [first] (some (second :: rest)) :=
        .point ⟨by simp, fun digit member => isDigits.2 digit (by simp_all)⟩
          fun digit member => isDigits.2 digit (List.mem_cons_of_mem first member)
      refine ⟨_, .intro parts rfl ?_, rfl⟩
      have isLength : (-((second :: rest).length : ℤ)) = 1 - (first :: second :: rest).length := by
        rw [List.length_cons, List.length_cons, List.length_cons]
        omega
      rw [Option.getD_some, isLength]
      rfl

end Mantissa

section Numeral

/-- Whether a numeral is how a decimal number is written. -/
structure Writes (numeral : Numeral) (text : List Char) (decimal : Decimal) : Prop where
  wellFormed : IsWellFormed numeral
  text : numeral.text = text
  negative : numeral.negative = decimal.negative
  magnitude : numeral.toDecimal.magnitude = decimal.magnitude

/-- The text of a power of ten as it is laid out. -/
def writtenPower (exponent : ℤ) : PowerOfTen :=
  ⟨['e'], decide (exponent < 0), digitsOf exponent.natAbs⟩

theorem exponent_writtenPower (exponent : ℤ) : (writtenPower exponent).exponent = exponent := by
  rw [PowerOfTen.exponent, writtenPower, ofDigits_digitsOf]
  dsimp only
  rcases lt_or_ge exponent 0 with negative | nonneg
  · rw [if_pos (decide_eq_true negative)]
    omega
  · rw [if_neg (by simpa using nonneg)]
    omega

/-- A mantissa after a sign is a numeral, with or without a power of ten. -/
theorem WritesMantissa.exists_numeral (writes : WritesMantissa text value) (decimal : Decimal)
    (power : Option ℤ) (isValue : value * 10 ^ power.getD 0 = decimal.magnitude) :
    ∃ numeral, Writes numeral
      ((if decimal.negative then ['-'] else []) ++ text ++
        (power.map fun exponent => (writtenPower exponent).text).getD []) decimal := by
  rcases writes with @⟨whole, fraction, parts, isText, isMantissa⟩
  refine ⟨⟨decimal.negative, whole, fraction, power.map writtenPower⟩, ⟨parts, ?_⟩, ?_, rfl, ?_⟩
  · intro written isPower
    rcases Option.map_eq_some_iff.mp isPower with ⟨exponent, _, rfl⟩
    exact ⟨by simp [writtenPower, marks], isDigits_digitsOf _⟩
  · rw [Numeral.text, isText]
    cases fraction <;> cases power <;> simp [pointed]
  · rw [← isValue, ← isMantissa, magnitude, Numeral.toDecimal]
    have isExponent : (power.map writtenPower).elim 0 PowerOfTen.exponent = power.getD 0 := by
      cases power with
      | none => rfl
      | some exponent => exact exponent_writtenPower exponent
    dsimp only
    rw [isExponent, sub_eq_add_neg, zpow_add₀ (by norm_num)]
    ring

theorem text_writtenPower (exponent : ℤ) :
    (writtenPower exponent).text =
      'e' :: ((if exponent < 0 then ['-'] else []) ++ digitsOf exponent.natAbs) := by
  simp [PowerOfTen.text, writtenPower]

theorem layOut_eq (decimal : Decimal) :
    Reading.plainStyle.layOut decimal =
      (if decimal.negative then ['-'] else []) ++
        if decimal.coefficient = 0 then positional false (digitsOf decimal.coefficient) 1
        else if -3 ≤ decimal.point - 1 ∧ decimal.point - 1 < 7 then
          positional false (digitsOf decimal.coefficient) decimal.point
        else scientific [] (digitsOf decimal.coefficient) (decimal.point - 1) := by
  rw [Style.layOut]
  cases decimal.negative <;> rfl

/-- A decimal number in plain text is a numeral. -/
theorem exists_numeral_layOut (decimal : Decimal) :
    ∃ numeral, Writes numeral (Reading.plainStyle.layOut decimal) decimal := by
  have isDigits := isDigits_digitsOf decimal.coefficient
  have isCoefficient := ofDigits_digitsOf decimal.coefficient
  rw [layOut_eq]
  by_cases isZero : decimal.coefficient = 0
  · have writes := writesMantissa_positional isDigits 1
    rw [isCoefficient] at writes
    have isNumeral := writes.exists_numeral decimal none (by simp [magnitude, isZero])
    rw [if_pos isZero]
    simpa using isNumeral
  rw [if_neg isZero]
  by_cases isPositional : -3 ≤ decimal.point - 1 ∧ decimal.point - 1 < 7
  · have writes := writesMantissa_positional isDigits decimal.point
    have isPower : decimal.point - (digitsOf decimal.coefficient).length = decimal.exponent := by
      rw [point]
      ring
    rw [isCoefficient, isPower] at writes
    have isNumeral := writes.exists_numeral decimal none (by simp [magnitude])
    rw [if_pos isPositional]
    simpa using isNumeral
  · rcases exists_mantissa_scientific isDigits (decimal.point - 1) with ⟨mantissa, writes, isText⟩
    have isPower : (1 - (digitsOf decimal.coefficient).length : ℤ) + (decimal.point - 1) =
        decimal.exponent := by
      rw [point]
      ring
    rw [isCoefficient] at writes
    have isNumeral := writes.exists_numeral decimal (some (decimal.point - 1)) (by
      rw [Option.getD_some, mul_assoc, ← zpow_add₀ (by norm_num), isPower, magnitude])
    rw [Option.map_some, Option.getD_some, text_writtenPower, List.append_assoc] at isNumeral
    rw [if_neg isPositional, isText]
    exact isNumeral

end Numeral

section Render

variable {number : Float}

theorem render_of_isFinite (style : Style) (isFinite : number.isFinite = true) :
    style.render number = style.layOut (shortest style.tie number) := by
  have isNumber : number.isNaN = false := by
    change (Binary64.unpacked number).isNaN = false
    rcases Binary64.zero_or_finite isFinite with ⟨_, isParts⟩ | ⟨_, _, _, _, isParts⟩ <;>
      rw [isParts] <;> rfl
  rw [Style.render, isNumber, if_neg Bool.false_ne_true, if_pos isFinite]

/-- A finite number in plain text is a numeral of its sign that is read as the number. -/
theorem exists_numeral_render (isFinite : number.isFinite = true) :
    ∃ numeral, IsWellFormed numeral ∧ numeral.text = Reading.plainStyle.render number ∧
      numeral.negative = signOf number ∧ numeral.toDecimal.toFloat = number := by
  rcases shortest_spec Reading.plainStyle.tie isFinite with ⟨isSign, reads⟩
  rcases exists_numeral_layOut (shortest Reading.plainStyle.tie number) with ⟨numeral, writes⟩
  refine ⟨numeral, writes.wellFormed, ?_, writes.negative.trans isSign, ?_⟩
  · rw [writes.text, render_of_isFinite _ isFinite]
  · rw [← reads]
    exact toFloat_congr writes.negative writes.magnitude

end Render

end Metrology.Decimal

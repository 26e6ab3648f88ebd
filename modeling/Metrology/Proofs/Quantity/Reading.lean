import Metrology.Proofs.BaseText.Literal
import Metrology.Proofs.Decimal.Layout
import Metrology.Proofs.Quantity.Invariant
import Metrology.Proofs.Text.Blank
import Metrology.Proofs.UnitSystem.Literal

/-!
# Readings read back

The plain text of a reading is a quantity literal again. Its two numbers are numerals that end where
they should, since neither the plus-minus sign nor the blank before the unit continues a numeral,
and the rest is the unit. So the text stands for the quantity that the reading was made of, whatever
the unit is and however the numbers are laid out.
-/

namespace Metrology

namespace LiteralGrammar

variable {numeral : Numeral} {rest : List Char}

/-- Whether no numeral goes on with a text. -/
def EndsNumeral (text : List Char) : Prop :=
  (∀ next ∈ text.head?, next.isDigit = false ∧ next ≠ '.') ∧ PowerOfTen.read? text = none

theorem head_of_mark {mark : List Char} (isMark : mark ∈ marks) (text : List Char) :
    ∀ next ∈ (mark ++ text).head?, next.isDigit = false ∧ next ≠ '.' := by
  simp only [marks, List.mem_cons, List.not_mem_nil, or_false] at isMark
  rcases isMark with rfl | rfl | rfl | rfl <;> simp

theorem text_eq (numeral : Numeral) :
    numeral.text = (if numeral.negative then ['-'] else []) ++
      (numeral.whole ++ pointed numeral.fraction ++ numeral.power.elim [] PowerOfTen.text) := by
  rw [Numeral.text]
  cases numeral.fraction <;> cases numeral.power <;> simp [pointed]

/-- A numeral without its sign is read whole, up to what does not continue it. -/
theorem readUnsigned?_append (wellFormed : IsWellFormed numeral) (ends : EndsNumeral rest) :
    Numeral.readUnsigned?
        (numeral.whole ++ pointed numeral.fraction ++
          numeral.power.elim [] PowerOfTen.text ++ rest) =
      some ({ numeral with negative := false }, rest) := by
  rcases numeral with ⟨negative, whole, fraction, power⟩
  have parts := wellFormed.mantissa
  dsimp only at parts ⊢
  unfold Numeral.readUnsigned?
  cases power with
  | none =>
      rw [Option.elim_none, List.append_nil, readMantissa?_append parts ends.1]
      simp [ends.2]
  | some power =>
      rcases wellFormed.power power rfl with ⟨isMark, isDigits⟩
      have reads : PowerOfTen.read? (power.text ++ rest) = some (power, rest) :=
        readPower?_eq_some_iff.mpr
          ⟨isMark, isDigits, rfl, fun next isNext => (ends.1 next isNext).1⟩
      have afterMantissa :
          ∀ next ∈ (power.text ++ rest).head?, next.isDigit = false ∧ next ≠ '.' := by
        rw [PowerOfTen.text_eq, List.append_assoc]
        exact head_of_mark isMark _
      rw [Option.elim_some, List.append_assoc, readMantissa?_append parts afterMantissa]
      simp [reads]

/-- A numeral is read whole, up to what does not continue it. -/
theorem readNumeral?_append (wellFormed : IsWellFormed numeral) (ends : EndsNumeral rest) :
    Numeral.read? (numeral.text ++ rest) = some (numeral, rest) := by
  have reads := readUnsigned?_append wellFormed ends
  rcases numeral with ⟨negative, whole, fraction, power⟩
  rw [text_eq]
  dsimp only at reads ⊢
  cases negative with
  | true =>
      rw [if_pos rfl, List.append_assoc, List.singleton_append, Numeral.read?, reads]
      rfl
  | false =>
      have noMinus :
          ∀ next ∈ (whole ++ pointed fraction ++ power.elim [] PowerOfTen.text ++ rest).head?,
            next ≠ '-' := by
        rcases head_of_mantissaParts wellFormed.mantissa
          (power.elim [] PowerOfTen.text ++ rest) with ⟨first, others, isFirst, begins⟩
        dsimp only at isFirst
        rw [List.append_assoc, isFirst]
        rintro next ⟨⟩ rfl
        exact absurd begins (by decide)
      rw [if_neg Bool.false_ne_true, List.nil_append, readNumeral?_of_unsigned noMinus, reads]

theorem isDigit_or_point_of_mem {whole : List Char} {fraction : Option (List Char)}
    (parts : MantissaParts whole fraction) {character : Char}
    (member : character ∈ whole ++ pointed fraction) :
    character.isDigit = true ∨ character = '.' := by
  cases parts with
  | whole isDigits =>
      simp only [pointed, Option.elim_none, List.append_nil] at member
      exact .inl (isDigits.2 character member)
  | point isDigits digital =>
      simp only [pointed, Option.elim_some, List.mem_append, List.mem_cons] at member
      rcases member with inWhole | isPoint | inFraction
      · exact .inl (isDigits.2 character inWhole)
      · exact .inr isPoint
      · exact .inl (digital character inFraction)
  | fraction isDigits =>
      simp only [pointed, Option.elim_some, List.nil_append, List.mem_cons] at member
      exact member.symm.imp_left (isDigits.2 character)

/-- A numeral has no blank in it. -/
theorem isBlank_of_mem_text (wellFormed : IsWellFormed numeral) :
    ∀ character ∈ numeral.text, Text.isBlank character = false := by
  intro character member
  have ofSign : ∀ negative : Bool, ∀ sign ∈ if negative then ['-'] else [],
      Text.isBlank sign = false := by
    intro negative sign inSign
    obtain ⟨-, rfl⟩ : negative = true ∧ sign = '-' := by simpa using inSign
    rfl
  rw [text_eq, List.mem_append, List.mem_append] at member
  rcases member with inSign | inMantissa | inPower
  · exact ofSign _ _ inSign
  · rcases isDigit_or_point_of_mem wellFormed.mantissa inMantissa with isDigit | rfl
    · exact Text.isBlank_eq_false_of_isDigit isDigit
    · decide
  · cases isPower : numeral.power with
    | none =>
        rw [isPower] at inPower
        cases inPower
    | some power =>
        have ofMark : ∀ mark ∈ marks, ∀ next ∈ mark, Text.isBlank next = false := by
          simp only [marks, List.mem_cons, List.not_mem_nil, or_false, forall_eq_or_imp, forall_eq]
          decide
        rcases wellFormed.power power isPower with ⟨isMark, isDigits⟩
        rw [isPower, Option.elim_some, PowerOfTen.text, List.mem_append, List.mem_append] at inPower
        rcases inPower with (inMark | inSign) | inDigits
        · exact ofMark _ isMark _ inMark
        · exact ofSign _ _ inSign
        · exact Text.isBlank_eq_false_of_isDigit (isDigits.2 character inDigits)

end LiteralGrammar

open LiteralGrammar

namespace Reading

/-- The unit of a reading as it stands in the text, with the blank before it. -/
def unitText (unit : String) : List Char :=
  if unit.isEmpty then [] else ' ' :: unit.toList

theorem toList_text (value uncertainty : Float) (unit : String) :
    (Reading.mk value uncertainty unit).text.toList =
      plainStyle.render value ++ '±' :: (plainStyle.render uncertainty ++ unitText unit) := by
  have isPlusMinus : "±".toList = ['±'] := rfl
  have isBlank : " ".toList = [' '] := rfl
  unfold text unitText numberText
  split <;> simp [String.toList_append, isPlusMinus, isBlank]

theorem compact_unitText (unit : String) :
    Text.compact (unitText unit) = Text.compact unit.toList := by
  unfold unitText
  split
  · rename_i isEmpty
    rw [String.isEmpty_iff.mp isEmpty]
    rfl
  · simp [Text.compact, show Text.isBlank ' ' = true from rfl]

/-- A trimmed unit is empty or begins with the blank. -/
theorem trimEnd_unitText_cases (unit : String) :
    Text.trimEnd (unitText unit) = [] ∨ ∃ rest, Text.trimEnd (unitText unit) = ' ' :: rest := by
  have isPrefix := Text.trimEnd_isPrefix (unitText unit)
  cases isTrimmed : Text.trimEnd (unitText unit) with
  | nil => exact .inl rfl
  | cons next rest =>
      right
      rw [isTrimmed, unitText] at isPrefix
      split at isPrefix
      · exact absurd (List.prefix_nil.mp isPrefix) (List.cons_ne_nil next rest)
      · exact ⟨rest, by rw [(List.cons_prefix_cons.mp isPrefix).1]⟩

theorem endsNumeral_unit (unit : String) : EndsNumeral (Text.trimEnd (unitText unit)) := by
  rcases trimEnd_unitText_cases unit with isEmpty | ⟨rest, isBlank⟩
  · rw [isEmpty]
    exact ⟨by simp, rfl⟩
  · rw [isBlank]
    exact ⟨by simp, rfl⟩

theorem endsNumeral_plusMinus (text : List Char) : EndsNumeral ('±' :: text) :=
  ⟨by simp, rfl⟩

theorem lineFeed_notMem_of_plain {text : List Char}
    (plain : ∀ character ∈ text, Text.isBlank character = false) : '\n' ∉ text := by
  intro member
  exact absurd (plain '\n' member) (by decide)

theorem lineFeed_notMem_unit {unit : String} (oneLine : '\n' ∉ unit.toList) :
    '\n' ∉ Text.trimEnd (unitText unit) := by
  intro member
  have inUnit := (Text.trimEnd_isPrefix (unitText unit)).subset member
  unfold unitText at inUnit
  split at inUnit
  · cases inUnit
  · exact oneLine ((List.mem_cons.mp inUnit).resolve_left (by decide))

variable {value uncertainty : Float}

/-- The text of a reading is divided into its numbers and its unit. -/
theorem exists_read? (finiteValue : value.isFinite = true)
    (finiteUncertainty : uncertainty.isFinite = true)
    (unsigned : Decimal.signOf uncertainty = false) {unit : String} (oneLine : '\n' ∉ unit.toList) :
    ∃ literal, QuantityLiteral.read?
          (Text.trim (Reading.mk value uncertainty unit).text.toList) = some literal ∧
        literal.value.toDecimal.toFloat = value ∧ literal.uncertaintyValue = uncertainty ∧
        literal.unit = Text.trimEnd (unitText unit) := by
  rcases Decimal.exists_numeral_render finiteValue with
    ⟨first, firstWellFormed, firstText, _, firstReads⟩
  rcases Decimal.exists_numeral_render finiteUncertainty with
    ⟨second, secondWellFormed, secondText, secondSign, secondReads⟩
  have firstPlain := isBlank_of_mem_text firstWellFormed
  have secondPlain := isBlank_of_mem_text secondWellFormed
  have isTrimmed : Text.trim (Reading.mk value uncertainty unit).text.toList =
      first.text ++ '±' :: (second.text ++ Text.trimEnd (unitText unit)) := by
    have plain :
        ∀ character ∈ first.text ++ '±' :: second.text, Text.isBlank character = false := by
      intro character member
      rcases List.mem_append.mp member with inFirst | inRest
      · exact firstPlain character inFirst
      · rcases List.mem_cons.mp inRest with rfl | inSecond
        · decide
        · exact secondPlain character inSecond
    have regrouped : ∀ rest, first.text ++ '±' :: (second.text ++ rest) =
        (first.text ++ '±' :: second.text) ++ rest := by simp
    rw [toList_text, ← firstText, ← secondText, regrouped, regrouped,
      Text.trim_append plain (by simp), Text.trimEnd_append plain]
  have noLineFeed : '\n' ∉ first.text ++ '±' :: (second.text ++ Text.trimEnd (unitText unit)) := by
    have inFirst := lineFeed_notMem_of_plain firstPlain
    have inSecond := lineFeed_notMem_of_plain secondPlain
    have inUnit := lineFeed_notMem_unit oneLine
    simp [inFirst, inSecond, inUnit]
  have readsFirst := readNumeral?_append firstWellFormed
    (endsNumeral_plusMinus (second.text ++ Text.trimEnd (unitText unit)))
  have readsSecond : Numeral.readUnsigned? (second.text ++ Text.trimEnd (unitText unit)) =
      some (second, Text.trimEnd (unitText unit)) := by
    have reads := readUnsigned?_append secondWellFormed (endsNumeral_unit unit)
    rw [unsigned] at secondSign
    rw [text_eq, secondSign, if_neg Bool.false_ne_true, List.nil_append, reads, ← secondSign]
  refine ⟨⟨first, some (['±'], second), Text.trimEnd (unitText unit)⟩, ?_, firstReads, secondReads,
    rfl⟩
  have oneLineText : (first.text ++ '±' :: (second.text ++ Text.trimEnd (unitText unit))).contains
      '\n' = false := by
    rw [← Bool.not_eq_true, List.contains_iff_mem]
    exact noLineFeed
  rw [isTrimmed, QuantityLiteral.read?, oneLineText, if_neg Bool.false_ne_true, readsFirst]
  simp [QuantityLiteral.readUncertainty?, readsSecond]

end Reading

namespace Quantity

variable {value uncertainty : Float}

/-- A reading in plain text is read as what it shows, in whatever unit it is shown. -/
theorem parse_text_of_reading (system : UnitSystem) (finiteValue : value.isFinite = true)
    (finiteUncertainty : uncertainty.isFinite = true)
    (unsigned : Decimal.signOf uncertainty = false) (unit : String) (oneLine : '\n' ∉ unit.toList) :
    parse system (Reading.mk value uncertainty unit).text =
      match system.parse unit with
      | .error error =>
          .error (.unit (error.quoting (String.ofList (Text.trimEnd (Reading.unitText unit)))))
      | .ok parsed =>
          let quantity := ofUnit value uncertainty parsed
          if quantity.value.isFinite ∧ quantity.uncertainty.isFinite then .ok quantity
          else .error (.nonFiniteResult .parsing) := by
  rcases Reading.exists_read? finiteValue finiteUncertainty unsigned oneLine with
    ⟨literal, reads, readsValue, readsUncertainty, isUnit⟩
  have sameText : Text.compact (String.ofList literal.unit).toList = Text.compact unit.toList := by
    rw [String.toList_ofList, isUnit, Text.compact_trimEnd, Reading.compact_unitText]
  rw [parse_of_some reads, readsValue, readsUncertainty, ← UnitSystem.parse_mapError sameText,
    isUnit]
  cases system.parse unit with
  | error error => rfl
  | ok parsed => rfl

/-- What a quantity gives in its own unit is the quantity. -/
theorem ofUnit_self (quantity : Quantity Float) :
    ofUnit quantity.value quantity.uncertainty ⟨quantity.dimension, 1⟩ = quantity := by
  change ofBase (quantity.value * 1) (quantity.uncertainty * 1) _ = quantity
  rw [Binary64.float_mul_one, Binary64.float_mul_one]
  exact ext_dimension rfl (Binary64.abs_of_signOf_eq_false quantity.isSound.uncertainty) rfl

/-- A quantity in base units is read as the quantity itself, if its unit is read as the base unit of
its dimension. -/
theorem parse_text_baseReading (system : UnitSystem) {quantity : Quantity Float}
    (finite : quantity.IsFinite)
    (comesBack : system.parse quantity.dimension.expression = .ok ⟨quantity.dimension, 1⟩) :
    parse system quantity.baseReading.text = .ok quantity := by
  have oneLine : '\n' ∉ quantity.dimension.expression.toList := by
    rw [Dimension.expression, String.toList_ofList, ← BaseText.compact_baseText]
    simp [Text.compact, show Text.isBlank '\n' = true from rfl]
  rw [baseReading, parse_text_of_reading system finite.value finite.uncertainty
    quantity.isSound.uncertainty _ oneLine, comesBack]
  dsimp only
  rw [ofUnit_self, if_pos ⟨finite.value, finite.uncertainty⟩]

/-- What is shown in plain text is read again as what was shown: a reading as the quantity with its
numbers in its unit, with the unit's own fault if the unit has no meaning, and a quantity in base
units as the same quantity, bit by bit. -/
theorem parse_shown (system : UnitSystem) :
    (∀ (value uncertainty : Float) (unit : String), value.isFinite = true →
      uncertainty.isFinite = true → Decimal.signOf uncertainty = false → '\n' ∉ unit.toList →
      parse system (Reading.mk value uncertainty unit).text =
        match system.parse unit with
        | .error error =>
            .error (.unit (error.quoting (String.ofList (Text.trimEnd (Reading.unitText unit)))))
        | .ok parsed =>
            let quantity := ofUnit value uncertainty parsed
            if quantity.value.isFinite ∧ quantity.uncertainty.isFinite then .ok quantity
            else .error (.nonFiniteResult .parsing)) ∧
    ∀ quantity : Quantity Float, quantity.IsFinite →
      system.parse quantity.dimension.expression = .ok ⟨quantity.dimension, 1⟩ →
      parse system quantity.baseReading.text = .ok quantity :=
  ⟨fun _ _ unit finiteValue finiteUncertainty unsigned oneLine =>
      parse_text_of_reading system finiteValue finiteUncertainty unsigned unit oneLine,
    fun _ finite comesBack => parse_text_baseReading system finite comesBack⟩

theorem parse_shown_meter :
    let quantity : Quantity Float := .ofBase (-12.5) 0.25 ⟨.ofBase .meter, 1⟩
    parse .builtin (Reading.mk (-12.5) 0.25 "m").text = .ok quantity ∧
      parse .builtin quantity.baseReading.text = .ok quantity := by
  intro quantity
  have finite : quantity.IsFinite := ⟨by decide +kernel, by decide +kernel⟩
  have unsigned : Decimal.signOf 0.25 = false := by decide +kernel
  have isMeter : UnitSystem.builtin.parse "m" = .ok ⟨.ofBase .meter, 1⟩ := by
    have isParts : (UnitSystem.builtin.parse "m").toOption.map
        (fun unit => (unit.dimension, unit.scale)) = some (.ofBase .meter, 1) := by
      decide +kernel
    cases isUnit : UnitSystem.builtin.parse "m" with
    | error error =>
        rw [isUnit] at isParts
        cases isParts
    | ok unit =>
        rw [isUnit] at isParts
        rcases unit with ⟨dimension, scale⟩
        cases isParts
        rfl
  have shown := parse_shown .builtin
  have first := shown.1 (-12.5) 0.25 "m" finite.value (by decide +kernel) unsigned (by decide)
  rw [isMeter] at first
  refine ⟨first.trans ?_, shown.2 quantity finite isMeter⟩
  decide +kernel

end Quantity

end Metrology

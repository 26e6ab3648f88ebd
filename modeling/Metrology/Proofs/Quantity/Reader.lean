import Mathlib.Data.List.TakeDrop
import Metrology.Proofs.Quantity.Grammar
import Metrology.Proofs.Segmentation.Exponent
import Metrology.Quantity.Literal

/-!
# Reading quantity literals

The readers of mantissas and powers of ten take the longest text of their form, and together they
divide a text as the grammar does: `QuantityLiteral.read?` finds the parts of a text, and finds none
just where the text has a line feed in it or does not begin as a numeral does.
-/

namespace Metrology

namespace LiteralGrammar

/-- Whether a reader takes the longest text of a form, where `written` gives back what was read. -/
structure IsReader {Part : Type} (form : List Char → Prop) (written : Part → List Char)
    (read? : List Char → Option (Part × List Char)) : Prop where
  sound : ∀ {text part rest}, read? text = some (part, rest) →
    text = written part ++ rest ∧ form (written part)
  greedy : ∀ {other}, form other → ∀ more,
    ∃ part rest, read? (other ++ more) = some (part, rest) ∧ rest.length ≤ more.length

namespace IsReader

variable {Part : Type} {form : List Char → Prop} {written : Part → List Char}
  {read? : List Char → Option (Part × List Char)} {text rest : List Char} {part : Part}

theorem longest (reader : IsReader form written read?) (reads : read? text = some (part, rest)) :
    Longest form text (written part) rest := by
  rcases reader.sound reads with ⟨split, hasForm⟩
  refine ⟨split, hasForm, ?_⟩
  rintro other ⟨more, rfl⟩ otherHasForm
  rcases reader.greedy otherHasForm more with ⟨_, _, alsoReads, short⟩
  rw [reads] at alsoReads
  cases alsoReads
  have sameLength := congrArg List.length split
  simp only [List.length_append] at sameLength
  omega

theorem beginsWithNone (reader : IsReader form written read?) (fails : read? text = none) :
    BeginsWithNone form text := by
  rintro other ⟨more, rfl⟩ hasForm
  rcases reader.greedy hasForm more with ⟨_, _, reads, _⟩
  rw [fails] at reads
  cases reads

end IsReader

section Digits

variable {digits rest : List Char}

theorem isDigits_takeWhile (nonempty : digits.takeWhile Char.isDigit ≠ []) :
    IsDigits (digits.takeWhile Char.isDigit) :=
  ⟨nonempty, List.all_eq_true.mp List.all_takeWhile⟩

theorem length_dropWhile_append_le (digital : ∀ digit ∈ digits, digit.isDigit = true)
    (rest : List Char) :
    ((digits ++ rest).dropWhile Char.isDigit).length ≤ rest.length := by
  rw [List.dropWhile_append_of_pos digital]
  exact (List.dropWhile_suffix _).length_le

theorem dropWhile_append_of_ends (digital : ∀ digit ∈ digits, digit.isDigit = true)
    (ends : ∀ next ∈ rest.head?, next.isDigit = false) :
    (digits ++ rest).dropWhile Char.isDigit = rest := by
  rw [List.dropWhile_append_of_pos digital]
  cases rest with
  | nil => rfl
  | cons next rest => simp [ends next rfl]

end Digits

/-- The fraction of a mantissa with its point, if there is a point. -/
def pointed (fraction : Option (List Char)) : List Char :=
  fraction.elim [] ('.' :: ·)

/-- The digits before and after the point of a mantissa. -/
inductive MantissaParts : List Char → Option (List Char) → Prop where
  | whole {digits : List Char} (isDigits : IsDigits digits) : MantissaParts digits none
  | point {whole fraction : List Char} (isDigits : IsDigits whole)
      (digital : ∀ digit ∈ fraction, digit.isDigit = true) : MantissaParts whole (some fraction)
  | fraction {digits : List Char} (isDigits : IsDigits digits) : MantissaParts [] (some digits)

section Mantissa

variable {whole rest text : List Char} {fraction : Option (List Char)}

theorem MantissaParts.isMantissa (parts : MantissaParts whole fraction) :
    IsMantissa (whole ++ pointed fraction) := by
  cases parts with
  | whole isDigits => simpa [pointed] using IsMantissa.whole isDigits
  | point isDigits digital => exact .point isDigits digital
  | fraction isDigits => exact .fraction isDigits

/-- A mantissa with a point that the leading digits of a text are followed by. -/
theorem readMantissa?_of_point {afterPoint : List Char}
    (isPoint : text.dropWhile Char.isDigit = '.' :: afterPoint) :
    Numeral.readMantissa? text =
      if text.takeWhile Char.isDigit = [] ∧ afterPoint.takeWhile Char.isDigit = [] then none
      else
        some (text.takeWhile Char.isDigit, some (afterPoint.takeWhile Char.isDigit),
          afterPoint.dropWhile Char.isDigit) := by
  unfold Numeral.readMantissa?
  simp only [List.span_eq_takeWhile_dropWhile, isPoint]
  cases text.takeWhile Char.isDigit with
  | nil =>
      simp only
      cases afterPoint.takeWhile Char.isDigit <;> simp
  | cons first digits => simp

theorem readMantissa?_of_no_point
    (noPoint : ∀ next ∈ (text.dropWhile Char.isDigit).head?, next ≠ '.') :
    Numeral.readMantissa? text =
      if text.takeWhile Char.isDigit = [] then none
      else some (text.takeWhile Char.isDigit, none, text.dropWhile Char.isDigit) := by
  unfold Numeral.readMantissa?
  simp only [List.span_eq_takeWhile_dropWhile]
  generalize text.takeWhile Char.isDigit = whole
  generalize text.dropWhile Char.isDigit = rest at noPoint ⊢
  split <;> simp_all

/-- A text goes on with a point after its leading digits, or it does not. -/
theorem point_or_no_point (text : List Char) :
    (∃ afterPoint, text.dropWhile Char.isDigit = '.' :: afterPoint) ∨
      ∀ next ∈ (text.dropWhile Char.isDigit).head?, next ≠ '.' := by
  cases isRest : text.dropWhile Char.isDigit with
  | nil => simp
  | cons next rest => by_cases isPoint : next = '.' <;> simp [isPoint]

/-- The reader of mantissas, with the parts of the mantissa in a pair. -/
def readMantissaParts? (text : List Char) : Option ((List Char × Option (List Char)) × List Char) :=
  (Numeral.readMantissa? text).map fun (whole, fraction, rest) => ((whole, fraction), rest)

theorem mantissaParts_of_readMantissa?
    (reads : Numeral.readMantissa? text = some (whole, fraction, rest)) :
    MantissaParts whole fraction ∧ text = whole ++ pointed fraction ++ rest := by
  have split : text.takeWhile Char.isDigit ++ text.dropWhile Char.isDigit = text :=
    List.takeWhile_append_dropWhile
  rcases point_or_no_point text with ⟨afterPoint, isPoint⟩ | noPoint
  · rw [readMantissa?_of_point isPoint] at reads
    split at reads
    · cases reads
    · rename_i someDigit
      cases reads
      constructor
      · by_cases noWhole : text.takeWhile Char.isDigit = []
        · rw [noWhole]
          exact .fraction (isDigits_takeWhile fun noFraction => someDigit ⟨noWhole, noFraction⟩)
        · exact .point (isDigits_takeWhile noWhole) (List.all_eq_true.mp List.all_takeWhile)
      · rw [pointed, Option.elim_some, List.append_assoc, List.cons_append,
          List.takeWhile_append_dropWhile, ← isPoint, split]
  · rw [readMantissa?_of_no_point noPoint] at reads
    split at reads
    · cases reads
    · rename_i noWhole
      cases reads
      exact ⟨.whole (isDigits_takeWhile noWhole), by simp [pointed]⟩

theorem isReader_mantissa :
    IsReader IsMantissa (fun (whole, fraction) => whole ++ pointed fraction)
      readMantissaParts? where
  sound := by
    intro text part rest reads
    rcases Option.map_eq_some_iff.mp reads with ⟨⟨whole, fraction, _⟩, reads, ⟨⟩⟩
    rcases mantissaParts_of_readMantissa? reads with ⟨parts, split⟩
    exact ⟨split, parts.isMantissa⟩
  greedy := by
    intro other isMantissa more
    cases isMantissa with
    | whole isDigits =>
        have taken : (other ++ more).takeWhile Char.isDigit ≠ [] := by
          rw [List.takeWhile_append_of_pos isDigits.2]
          simp [isDigits.1]
        have short := length_dropWhile_append_le isDigits.2 more
        rcases point_or_no_point (other ++ more) with ⟨afterPoint, isPoint⟩ | noPoint
        · have reads := readMantissa?_of_point isPoint
          have shorter := (List.dropWhile_suffix Char.isDigit (l := afterPoint)).length_le
          rw [if_neg fun both => taken both.1] at reads
          rw [isPoint, List.length_cons] at short
          exact ⟨_, _, congrArg (Option.map _) reads, by omega⟩
        · have reads := readMantissa?_of_no_point noPoint
          rw [if_neg taken] at reads
          exact ⟨_, _, congrArg (Option.map _) reads, short⟩
    | @point whole fraction isDigits digital =>
        have isPoint : ((whole ++ '.' :: fraction) ++ more).dropWhile Char.isDigit =
            '.' :: (fraction ++ more) := by
          rw [List.append_assoc, List.dropWhile_append_of_pos isDigits.2]
          rfl
        have taken : ((whole ++ '.' :: fraction) ++ more).takeWhile Char.isDigit ≠ [] := by
          rw [List.append_assoc, List.takeWhile_append_of_pos isDigits.2]
          simp [isDigits.1]
        have reads := readMantissa?_of_point isPoint
        rw [if_neg fun both => taken both.1] at reads
        exact ⟨_, _, congrArg (Option.map _) reads, length_dropWhile_append_le digital more⟩
    | @fraction digits isDigits =>
        have isPoint : (('.' :: digits) ++ more).dropWhile Char.isDigit = '.' :: (digits ++ more) :=
          rfl
        have taken : (digits ++ more).takeWhile Char.isDigit ≠ [] := by
          rw [List.takeWhile_append_of_pos isDigits.2]
          simp [isDigits.1]
        have reads := readMantissa?_of_point isPoint
        rw [if_neg fun both => taken both.2] at reads
        exact ⟨_, _, congrArg (Option.map _) reads, length_dropWhile_append_le isDigits.2 more⟩

end Mantissa

end LiteralGrammar

open LiteralGrammar

/-- The digits of a power of ten with their sign. -/
def PowerOfTen.integer (power : PowerOfTen) : List Char :=
  (if power.negative then ['-'] else []) ++ power.digits

def PowerOfTen.written (power : PowerOfTen) : List Char × List Char :=
  (power.mark, power.integer)

/-- The sign, the digits and the point of a numeral. -/
def Numeral.mantissa (numeral : Numeral) : List Char :=
  (if numeral.negative then ['-'] else []) ++ numeral.whole ++ pointed numeral.fraction

def Numeral.written (numeral : Numeral) : WrittenNumeral :=
  ⟨numeral.mantissa, numeral.power.map PowerOfTen.written⟩

def QuantityLiteral.written (literal : QuantityLiteral) : WrittenLiteral :=
  ⟨literal.value.written, literal.uncertainty.map fun (sign, numeral) => (sign, numeral.written),
    literal.unit⟩

namespace LiteralGrammar

section Power

variable {mark text rest digits : List Char} {power : PowerOfTen}

theorem readMark?_eq_some_iff :
    PowerOfTen.readMark? text = some (mark, rest) ↔ mark ∈ marks ∧ text = mark ++ rest := by
  constructor
  · intro reads
    unfold PowerOfTen.readMark? at reads
    split at reads <;> cases reads <;> simp [marks]
  · rintro ⟨isMark, rfl⟩
    simp only [marks, List.mem_cons, List.not_mem_nil, or_false] at isMark
    rcases isMark with rfl | rfl | rfl | rfl <;> rfl

theorem readPower?_of_negative (isMark : mark ∈ marks) (text : List Char) :
    PowerOfTen.read? (mark ++ '-' :: text) =
      if text.takeWhile Char.isDigit = [] then none
      else some (⟨mark, true, text.takeWhile Char.isDigit⟩, text.dropWhile Char.isDigit) := by
  unfold PowerOfTen.read?
  rw [readMark?_eq_some_iff.mpr ⟨isMark, rfl⟩]
  simp [List.span_eq_takeWhile_dropWhile]

theorem readPower?_of_unsigned (isMark : mark ∈ marks)
    (unsigned : ∀ next ∈ text.head?, next ≠ '-') :
    PowerOfTen.read? (mark ++ text) =
      if text.takeWhile Char.isDigit = [] then none
      else some (⟨mark, false, text.takeWhile Char.isDigit⟩, text.dropWhile Char.isDigit) := by
  unfold PowerOfTen.read?
  rw [readMark?_eq_some_iff.mpr ⟨isMark, rfl⟩]
  cases text with
  | nil => rfl
  | cons next rest =>
      have notMinus : next ≠ '-' := unsigned next rfl
      simp only [Option.bind_eq_bind, Option.bind_some, List.span_eq_takeWhile_dropWhile,
        List.isEmpty_iff]
      split
      · rename_i isMinus
        cases isMinus
        exact False.elim (notMinus rfl)
      · rfl

/-- A text begins with a mark or no power of ten is read. -/
theorem mark_or_readPower?_eq_none (text : List Char) :
    (∃ mark ∈ marks, ∃ afterMark, text = mark ++ afterMark) ∨ PowerOfTen.read? text = none := by
  cases isMark : PowerOfTen.readMark? text with
  | none =>
      right
      unfold PowerOfTen.read?
      rw [isMark]
      rfl
  | some marked =>
      rcases readMark?_eq_some_iff.mp isMark with ⟨isMark, split⟩
      exact .inl ⟨marked.1, isMark, marked.2, split⟩

theorem minus_or_unsigned (text : List Char) :
    (∃ rest, text = '-' :: rest) ∨ ∀ next ∈ text.head?, next ≠ '-' := by
  cases text with
  | nil => simp
  | cons next rest => by_cases isMinus : next = '-' <;> simp [isMinus]

theorem ne_minus_of_isDigits (isDigits : IsDigits digits) (rest : List Char) :
    ∀ next ∈ (digits ++ rest).head?, next ≠ '-' := by
  rcases isDigits with ⟨nonempty, digital⟩
  cases digits with
  | nil => exact False.elim (nonempty rfl)
  | cons first others =>
      rintro next ⟨⟩ rfl
      exact absurd (digital '-' (by simp)) (by decide)

theorem isDigit_of_mem_head?_dropWhile (text : List Char) :
    ∀ next ∈ (text.dropWhile Char.isDigit).head?, next.isDigit = false := by
  intro next isNext
  have stops := List.head?_dropWhile_not Char.isDigit text
  rw [Option.mem_def] at isNext
  simpa [isNext] using stops

/-- A power of ten is read just where a mark and digits are written, up to what is no digit. -/
theorem readPower?_eq_some_iff :
    PowerOfTen.read? text = some (power, rest) ↔
      power.mark ∈ marks ∧ IsDigits power.digits ∧ text = power.text ++ rest ∧
        ∀ next ∈ rest.head?, next.isDigit = false := by
  constructor
  · intro reads
    rcases mark_or_readPower?_eq_none text with ⟨mark, isMark, afterMark, rfl⟩ | fails
    · rcases minus_or_unsigned afterMark with ⟨unsigned, rfl⟩ | unsigned
      · rw [readPower?_of_negative isMark] at reads
        split at reads
        · cases reads
        · rename_i nonempty
          cases reads
          exact ⟨isMark, isDigits_takeWhile nonempty, by simp [PowerOfTen.text],
            isDigit_of_mem_head?_dropWhile unsigned⟩
      · rw [readPower?_of_unsigned isMark unsigned] at reads
        split at reads
        · cases reads
        · rename_i nonempty
          cases reads
          exact ⟨isMark, isDigits_takeWhile nonempty, by simp [PowerOfTen.text],
            isDigit_of_mem_head?_dropWhile afterMark⟩
    · rw [fails] at reads
      cases reads
  · rcases power with ⟨mark, negative, digits⟩
    rintro ⟨isMark, isDigits, rfl, ends⟩
    have taken := Segmentation.takeWhile_append_of_ends isDigits.2 ends
    have dropped := dropWhile_append_of_ends isDigits.2 ends
    have nonempty := isDigits.1
    cases negative with
    | true => simp [PowerOfTen.text, readPower?_of_negative isMark, taken, dropped, nonempty]
    | false =>
        simp [PowerOfTen.text, readPower?_of_unsigned isMark (ne_minus_of_isDigits isDigits rest),
          taken, dropped, nonempty]

theorem isSigned_integer (isDigits : IsDigits power.digits) :
    IsSigned IsDigits power.integer := by
  unfold PowerOfTen.integer
  split
  · exact .negative isDigits
  · exact .unsigned isDigits

theorem PowerOfTen.text_eq (power : PowerOfTen) : power.text = power.mark ++ power.integer :=
  List.append_assoc _ _ _

theorem isReader_power : IsReader IsPower PowerOfTen.text PowerOfTen.read? where
  sound := by
    intro text power rest reads
    rcases readPower?_eq_some_iff.mp reads with ⟨isMark, isDigits, split, _⟩
    exact ⟨split, PowerOfTen.text_eq power ▸ .intro isMark (isSigned_integer isDigits)⟩
  greedy := by
    rintro _ ⟨isMark, isInteger⟩ more
    cases isInteger with
    | @unsigned digits isDigits =>
        have reads := readPower?_of_unsigned isMark (ne_minus_of_isDigits isDigits more)
        rw [if_neg (by simp [List.takeWhile_append_of_pos isDigits.2, isDigits.1])] at reads
        exact ⟨_, _, by rw [List.append_assoc]; exact reads,
          length_dropWhile_append_le isDigits.2 more⟩
    | @negative digits isDigits =>
        have reads := readPower?_of_negative isMark (digits ++ more)
        rw [if_neg (by simp [List.takeWhile_append_of_pos isDigits.2, isDigits.1])] at reads
        exact ⟨_, _, by rw [List.append_assoc]; exact reads,
          length_dropWhile_append_le isDigits.2 more⟩

theorem dividesPower_of_read? (reads : PowerOfTen.read? text = some (power, rest)) :
    DividesPower text (some power.written) rest := by
  rcases readPower?_eq_some_iff.mp reads with ⟨isMark, isDigits, _, _⟩
  have longest := isReader_power.longest reads
  rw [PowerOfTen.text_eq] at longest
  exact .present isMark (isSigned_integer isDigits) longest

end Power

section Numeral

variable {text part rest : List Char} {numeral : Numeral}

theorem head_of_isMantissa (isMantissa : IsMantissa text) :
    ∃ first others, text = first :: others ∧ (first.isDigit = true ∨ first = '.') := by
  cases isMantissa with
  | whole isDigits | point isDigits _ =>
      rcases isDigits with ⟨nonempty, digital⟩
      rcases List.exists_cons_of_ne_nil nonempty with ⟨first, others, rfl⟩
      exact ⟨first, _, rfl, .inl (digital first (by simp))⟩
  | fraction => exact ⟨_, _, rfl, .inr rfl⟩

theorem head_ne_minus_of_isMantissa (isMantissa : IsMantissa text) :
    ∀ next ∈ text.head?, next ≠ '-' := by
  rcases head_of_isMantissa isMantissa with ⟨first, others, rfl, isDigit | rfl⟩
  · rintro next ⟨⟩ rfl
    exact absurd isDigit (by decide)
  · rintro next ⟨⟩
    decide

/-- Of the signed forms only the one with a minus sign can begin a text that begins with it. -/
theorem longest_of_negative (longest : Longest IsMantissa text part rest) :
    Longest (IsSigned IsMantissa) ('-' :: text) ('-' :: part) rest where
  split := congrArg ('-' :: ·) longest.split
  hasForm := .negative longest.hasForm
  longest := by
    intro other isPrefix hasForm
    cases hasForm with
    | negative hasForm =>
        have shorter := longest.longest _ (List.cons_prefix_cons.mp isPrefix).2 hasForm
        simpa using shorter
    | unsigned hasForm =>
        rcases head_of_isMantissa hasForm with ⟨first, others, rfl, _⟩
        exact absurd (List.cons_prefix_cons.mp isPrefix).1
          (head_ne_minus_of_isMantissa hasForm first rfl)

theorem not_negative_isPrefix {other : List Char} (unsigned : ∀ next ∈ text.head?, next ≠ '-') :
    ¬('-' :: other) <+: text := by
  rintro ⟨more, rfl⟩
  exact unsigned '-' rfl rfl

theorem longest_of_unsigned (unsigned : ∀ next ∈ text.head?, next ≠ '-')
    (longest : Longest IsMantissa text part rest) :
    Longest (IsSigned IsMantissa) text part rest where
  split := longest.split
  hasForm := .unsigned longest.hasForm
  longest := by
    intro other isPrefix hasForm
    cases hasForm with
    | negative => exact False.elim (not_negative_isPrefix unsigned isPrefix)
    | unsigned hasForm => exact longest.longest _ isPrefix hasForm

theorem beginsWithNone_of_negative (none : BeginsWithNone IsMantissa text) :
    BeginsWithNone (IsSigned IsMantissa) ('-' :: text) := by
  intro other isPrefix hasForm
  cases hasForm with
  | negative hasForm => exact none _ (List.cons_prefix_cons.mp isPrefix).2 hasForm
  | unsigned hasForm =>
      rcases head_of_isMantissa hasForm with ⟨first, others, rfl, _⟩
      exact head_ne_minus_of_isMantissa hasForm first rfl (List.cons_prefix_cons.mp isPrefix).1

theorem beginsWithNone_of_unsigned (unsigned : ∀ next ∈ text.head?, next ≠ '-')
    (none : BeginsWithNone IsMantissa text) : BeginsWithNone (IsSigned IsMantissa) text := by
  intro other isPrefix hasForm
  cases hasForm with
  | negative => exact not_negative_isPrefix unsigned isPrefix
  | unsigned hasForm => exact none _ isPrefix hasForm

/-- Whether the digits of a numeral are digits and are there. -/
structure IsWellFormed (numeral : Numeral) : Prop where
  mantissa : MantissaParts numeral.whole numeral.fraction
  power : ∀ power ∈ numeral.power, power.mark ∈ marks ∧ IsDigits power.digits

/-- An unsigned numeral is read, or the text begins with no mantissa. -/
theorem readUnsigned?_cases (text : List Char) :
    (∃ numeral rest, Numeral.readUnsigned? text = some (numeral, rest) ∧
        numeral.negative = false ∧ IsWellFormed numeral ∧
        DividesNumeral IsMantissa text numeral.written rest) ∨
      Numeral.readUnsigned? text = none ∧ BeginsWithNone IsMantissa text := by
  cases readsMantissa : Numeral.readMantissa? text with
  | none =>
      right
      refine ⟨?_, isReader_mantissa.beginsWithNone (congrArg (Option.map _) readsMantissa)⟩
      unfold Numeral.readUnsigned?
      rw [readsMantissa]
      rfl
  | some parts =>
      left
      rcases parts with ⟨whole, fraction, afterMantissa⟩
      have parts := (mantissaParts_of_readMantissa? readsMantissa).1
      have longest := isReader_mantissa.longest (congrArg (Option.map _) readsMantissa)
      unfold Numeral.readUnsigned?
      rw [readsMantissa]
      cases readsPower : PowerOfTen.read? afterMantissa with
      | none =>
          refine ⟨⟨false, whole, fraction, none⟩, afterMantissa, ?_, rfl, ⟨parts, by simp⟩,
            .intro longest (.absent (isReader_power.beginsWithNone readsPower))⟩
          simp [readsPower]
      | some read =>
          rcases read with ⟨power, rest⟩
          rcases readPower?_eq_some_iff.mp readsPower with ⟨isMark, isDigits, _, _⟩
          refine ⟨⟨false, whole, fraction, some power⟩, rest, ?_, rfl,
            ⟨parts, by rintro _ ⟨⟩; exact ⟨isMark, isDigits⟩⟩,
            .intro longest (dividesPower_of_read? readsPower)⟩
          simp [readsPower]

theorem readNumeral?_of_unsigned (unsigned : ∀ next ∈ text.head?, next ≠ '-') :
    Numeral.read? text = Numeral.readUnsigned? text := by
  unfold Numeral.read?
  split
  · exact absurd rfl (unsigned '-' rfl)
  · rfl

/-- A numeral is read, or the text begins with no mantissa, signed or not. -/
theorem readNumeral?_cases (text : List Char) :
    (∃ numeral rest, Numeral.read? text = some (numeral, rest) ∧ IsWellFormed numeral ∧
        DividesNumeral (IsSigned IsMantissa) text numeral.written rest) ∨
      Numeral.read? text = none ∧ BeginsWithNone (IsSigned IsMantissa) text := by
  rcases minus_or_unsigned text with ⟨unsigned, rfl⟩ | unsigned
  · rcases readUnsigned?_cases unsigned with
      ⟨numeral, rest, reads, isUnsigned, wellFormed, divides⟩ | ⟨fails, none⟩
    · left
      refine ⟨{ numeral with negative := true }, rest, ?_, ⟨wellFormed.1, wellFormed.2⟩, ?_⟩
      · simp [Numeral.read?, reads]
      · rcases numeral with ⟨negative, whole, fraction, power⟩
        cases isUnsigned
        rcases divides with ⟨longest, ofPower⟩
        exact .intro (longest_of_negative longest) ofPower
    · right
      exact ⟨by simp [Numeral.read?, fails], beginsWithNone_of_negative none⟩
  · rw [readNumeral?_of_unsigned unsigned]
    rcases readUnsigned?_cases text with
      ⟨numeral, rest, reads, _, wellFormed, divides⟩ | ⟨fails, none⟩
    · rcases divides with ⟨longest, ofPower⟩
      exact .inl ⟨numeral, rest, reads, wellFormed,
        .intro (longest_of_unsigned unsigned longest) ofPower⟩
    · exact .inr ⟨fails, beginsWithNone_of_unsigned unsigned none⟩

end Numeral

section Literal

variable {text sign rest : List Char} {literal : QuantityLiteral}

theorem readUncertainty?_of_sign (isSign : sign ∈ plusMinusSigns) (text : List Char) :
    QuantityLiteral.readUncertainty? (sign ++ text) =
      (Numeral.readUnsigned? text).map fun (numeral, rest) => ((sign, numeral), rest) := by
  simp only [plusMinusSigns, List.mem_cons, List.not_mem_nil, or_false] at isSign
  rcases isSign with rfl | rfl <;> cases reads : Numeral.readUnsigned? text <;>
    simp [QuantityLiteral.readUncertainty?, reads]

/-- A text begins with a plus-minus sign or no uncertainty is read. -/
theorem sign_or_readUncertainty?_eq_none (text : List Char) :
    (∃ sign ∈ plusMinusSigns, ∃ afterSign, text = sign ++ afterSign) ∨
      QuantityLiteral.readUncertainty? text = none ∧
        ∀ sign ∈ plusMinusSigns, ¬sign <+: text := by
  by_cases signed : ∃ sign ∈ plusMinusSigns, ∃ afterSign, text = sign ++ afterSign
  · exact .inl signed
  · right
    constructor
    · unfold QuantityLiteral.readUncertainty?
      split
      · exact False.elim (signed ⟨['+', '-'], by simp [plusMinusSigns], _, rfl⟩)
      · exact False.elim (signed ⟨['±'], by simp [plusMinusSigns], _, rfl⟩)
      · rfl
    · rintro sign isSign ⟨afterSign, split⟩
      exact signed ⟨sign, isSign, afterSign, split.symm⟩

/-- An uncertainty is read, or the text does not begin with one. -/
theorem readUncertainty?_cases (text : List Char) :
    (∃ sign numeral rest, QuantityLiteral.readUncertainty? text = some ((sign, numeral), rest) ∧
        IsWellFormed numeral ∧ DividesUncertainty text (some (sign, numeral.written)) rest) ∨
      QuantityLiteral.readUncertainty? text = none ∧ BeginsWithNone IsUncertainty text := by
  rcases sign_or_readUncertainty?_eq_none text with
    ⟨sign, isSign, afterSign, rfl⟩ | ⟨fails, noSign⟩
  · rw [readUncertainty?_of_sign isSign]
    rcases readUnsigned?_cases afterSign with
      ⟨numeral, rest, reads, _, wellFormed, divides⟩ | ⟨fails, none⟩
    · exact .inl ⟨sign, numeral, rest, by rw [reads]; rfl, wellFormed,
        .present isSign rfl divides⟩
    · refine .inr ⟨by rw [fails]; rfl, ?_⟩
      rintro _ isPrefix ⟨alsoSign, isMantissa⟩
      rcases isPrefix with ⟨more, same⟩
      rw [List.append_assoc] at same
      rcases eq_of_sign_append alsoSign isSign same with ⟨rfl, rfl⟩
      exact none _ (List.prefix_append _ _) isMantissa
  · refine .inr ⟨fails, ?_⟩
    rintro _ isPrefix ⟨isSign, _⟩
    exact noSign _ isSign ((List.prefix_append _ _).trans isPrefix)

/-- A text is divided as the grammar does, or it has a line feed or does not begin with a number. -/
theorem read?_cases (text : List Char) :
    (∃ literal, QuantityLiteral.read? text = some literal ∧ '\n' ∉ text ∧
        IsWellFormed literal.value ∧
        (∀ uncertainty ∈ literal.uncertainty, IsWellFormed uncertainty.2) ∧
        Divides text literal.written) ∨
      QuantityLiteral.read? text = none ∧ ('\n' ∈ text ∨ ¬IsSigned BeginsNumeral text) := by
  by_cases lineFeed : '\n' ∈ text
  · exact .inr ⟨by simp [QuantityLiteral.read?, lineFeed], .inl lineFeed⟩
  rcases readNumeral?_cases text with ⟨value, rest, reads, wellFormed, divides⟩ | ⟨fails, none⟩
  · left
    rcases readUncertainty?_cases rest with
      ⟨sign, numeral, unit, readsUncertainty, alsoWellFormed, alsoDivides⟩ | ⟨fails, isAbsent⟩
    · refine ⟨⟨value, some (sign, numeral), unit⟩, ?_, lineFeed, wellFormed, ?_,
        .intro divides alsoDivides⟩
      · simp [QuantityLiteral.read?, lineFeed, reads, readsUncertainty]
      · rintro _ ⟨⟩
        exact alsoWellFormed
    · exact ⟨⟨value, Option.none, rest⟩, by simp [QuantityLiteral.read?, lineFeed, reads, fails],
        lineFeed, wellFormed, by simp, .intro divides (.absent isAbsent)⟩
  · exact .inr ⟨by simp [QuantityLiteral.read?, lineFeed, fails],
      .inr (beginsWithNone_iff.mp none)⟩

end Literal

end LiteralGrammar

end Metrology

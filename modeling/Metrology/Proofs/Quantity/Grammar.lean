import Mathlib.Data.List.Basic

/-!
# The grammar of quantity literals

This file gives the forms of the parts of a quantity literal as texts, and says how a text is
divided into parts without saying how it is read: each part in turn is the longest text of its form.
A power of ten or an uncertainty that the text does not begin with in full is absent, and all that
is left is the unit. A text is divided in at most one way.
-/

namespace Metrology

namespace LiteralGrammar

def IsDigits (text : List Char) : Prop :=
  text ≠ [] ∧ ∀ character ∈ text, character.isDigit = true

/-- Digits with an optional point among them or at either end. -/
inductive IsMantissa : List Char → Prop where
  | whole {digits : List Char} (isDigits : IsDigits digits) : IsMantissa digits
  | point {whole fraction : List Char} (isDigits : IsDigits whole)
      (digital : ∀ digit ∈ fraction, digit.isDigit = true) : IsMantissa (whole ++ '.' :: fraction)
  | fraction {digits : List Char} (isDigits : IsDigits digits) : IsMantissa ('.' :: digits)

/-- A text of a form, with an optional minus sign before it. -/
inductive IsSigned (form : List Char → Prop) : List Char → Prop where
  | unsigned {text : List Char} (hasForm : form text) : IsSigned form text
  | negative {text : List Char} (hasForm : form text) : IsSigned form ('-' :: text)

/-- The texts that announce a power of ten. -/
def marks : List (List Char) :=
  [['E'], ['e'], ['x', '1', '0', '^'], ['*', '1', '0', '^']]

def plusMinusSigns : List (List Char) :=
  [['+', '-'], ['±']]

/-- A mark and an integer. -/
inductive IsPower : List Char → Prop where
  | intro {mark integer : List Char} (isMark : mark ∈ marks)
      (isInteger : IsSigned IsDigits integer) : IsPower (mark ++ integer)

/-- Whether a part is the longest text of a form that a text begins with. -/
structure Longest (form : List Char → Prop) (text part rest : List Char) : Prop where
  split : text = part ++ rest
  hasForm : form part
  longest : ∀ other, other <+: text → form other → other.length ≤ part.length

/-- Whether a text begins with no text of a form. -/
def BeginsWithNone (form : List Char → Prop) (text : List Char) : Prop :=
  ∀ other, other <+: text → ¬form other

/-- A numeral as it is written: the mantissa, and the mark and the integer of a power of ten. -/
@[ext]
structure WrittenNumeral where
  mantissa : List Char
  power : Option (List Char × List Char)

/-- A quantity literal as it is written: two numerals with a plus-minus sign between them, of which
the second may be absent, and the text of the unit. -/
@[ext]
structure WrittenLiteral where
  value : WrittenNumeral
  uncertainty : Option (List Char × WrittenNumeral)
  unit : List Char

def WrittenNumeral.text (numeral : WrittenNumeral) : List Char :=
  numeral.mantissa ++ numeral.power.elim [] fun (mark, integer) => mark ++ integer

def WrittenLiteral.text (literal : WrittenLiteral) : List Char :=
  literal.value.text ++
    (literal.uncertainty.elim [] fun (sign, numeral) => sign ++ numeral.text) ++ literal.unit

/-- The power of ten that a text begins with and what follows it. -/
inductive DividesPower (text : List Char) : Option (List Char × List Char) → List Char → Prop where
  | present {mark integer rest : List Char} (isMark : mark ∈ marks)
      (isInteger : IsSigned IsDigits integer)
      (longest : Longest IsPower text (mark ++ integer) rest) :
      DividesPower text (some (mark, integer)) rest
  | absent (isAbsent : BeginsWithNone IsPower text) : DividesPower text none text

/-- The numeral that a text begins with, its mantissa of a given form, and what follows it. -/
inductive DividesNumeral (form : List Char → Prop) (text : List Char) :
    WrittenNumeral → List Char → Prop where
  | intro {mantissa afterMantissa rest : List Char} {power : Option (List Char × List Char)}
      (longest : Longest form text mantissa afterMantissa)
      (divides : DividesPower afterMantissa power rest) :
      DividesNumeral form text ⟨mantissa, power⟩ rest

/-- Whether a text begins with a plus-minus sign and a numeral without a sign. -/
inductive IsUncertainty : List Char → Prop where
  | intro {sign mantissa : List Char} (isSign : sign ∈ plusMinusSigns)
      (isMantissa : IsMantissa mantissa) : IsUncertainty (sign ++ mantissa)

/-- The uncertainty that a text begins with and what follows it. -/
inductive DividesUncertainty (text : List Char) :
    Option (List Char × WrittenNumeral) → List Char → Prop where
  | present {sign afterSign rest : List Char} {numeral : WrittenNumeral}
      (isSign : sign ∈ plusMinusSigns) (split : text = sign ++ afterSign)
      (divides : DividesNumeral IsMantissa afterSign numeral rest) :
      DividesUncertainty text (some (sign, numeral)) rest
  | absent (isAbsent : BeginsWithNone IsUncertainty text) : DividesUncertainty text none text

/-- The parts of a quantity literal, each in turn the longest text of its form. -/
inductive Divides (text : List Char) : WrittenLiteral → Prop where
  | intro {value : WrittenNumeral} {uncertainty : Option (List Char × WrittenNumeral)}
      {afterValue unit : List Char}
      (ofValue : DividesNumeral (IsSigned IsMantissa) text value afterValue)
      (ofUncertainty : DividesUncertainty afterValue uncertainty unit) :
      Divides text ⟨value, uncertainty, unit⟩

/-- Whether a text begins as a numeral without a sign does. -/
inductive BeginsNumeral : List Char → Prop where
  | digit {first : Char} {rest : List Char} (isDigit : first.isDigit = true) :
      BeginsNumeral (first :: rest)
  | point {first : Char} {rest : List Char} (isDigit : first.isDigit = true) :
      BeginsNumeral ('.' :: first :: rest)

section Longest

variable {form : List Char → Prop} {text part other rest otherRest : List Char}

theorem Longest.unique (left : Longest form text part rest)
    (right : Longest form text other otherRest) : part = other ∧ rest = otherRest := by
  have noLonger := left.longest other ⟨otherRest, right.split.symm⟩ right.hasForm
  have noShorter := right.longest part ⟨rest, left.split.symm⟩ left.hasForm
  exact List.append_inj (left.split.symm.trans right.split) (by omega)

theorem Longest.not_beginsWithNone (longest : Longest form text part rest) :
    ¬BeginsWithNone form text :=
  fun none => none part ⟨rest, longest.split.symm⟩ longest.hasForm

end Longest

section Unique

variable {text sign other rest otherRest : List Char}

theorem eq_of_mark_append {mark otherMark integer otherInteger : List Char} (isMark : mark ∈ marks)
    (alsoMark : otherMark ∈ marks) (same : mark ++ integer = otherMark ++ otherInteger) :
    mark = otherMark ∧ integer = otherInteger := by
  simp only [marks, List.mem_cons, List.not_mem_nil, or_false] at isMark alsoMark
  rcases isMark with rfl | rfl | rfl | rfl <;> rcases alsoMark with rfl | rfl | rfl | rfl <;>
    simp_all

theorem eq_of_sign_append {otherSign : List Char} (isSign : sign ∈ plusMinusSigns)
    (alsoSign : otherSign ∈ plusMinusSigns) (same : sign ++ rest = otherSign ++ otherRest) :
    sign = otherSign ∧ rest = otherRest := by
  simp only [plusMinusSigns, List.mem_cons, List.not_mem_nil, or_false] at isSign alsoSign
  rcases isSign with rfl | rfl <;> rcases alsoSign with rfl | rfl <;> simp_all

theorem DividesPower.unique {power otherPower : Option (List Char × List Char)}
    (divides : DividesPower text power rest)
    (alsoDivides : DividesPower text otherPower otherRest) :
    power = otherPower ∧ rest = otherRest := by
  cases divides with
  | present isMark _ longest =>
      cases alsoDivides with
      | present alsoMark _ alsoLongest =>
          rcases longest.unique alsoLongest with ⟨same, rfl⟩
          rcases eq_of_mark_append isMark alsoMark same with ⟨rfl, rfl⟩
          exact ⟨rfl, rfl⟩
      | absent isAbsent => exact False.elim (longest.not_beginsWithNone isAbsent)
  | absent isAbsent =>
      cases alsoDivides with
      | present _ _ alsoLongest => exact False.elim (alsoLongest.not_beginsWithNone isAbsent)
      | absent => exact ⟨rfl, rfl⟩

theorem DividesNumeral.unique {form : List Char → Prop} {numeral otherNumeral : WrittenNumeral}
    (divides : DividesNumeral form text numeral rest)
    (alsoDivides : DividesNumeral form text otherNumeral otherRest) :
    numeral = otherNumeral ∧ rest = otherRest := by
  rcases divides with ⟨longest, ofPower⟩
  rcases alsoDivides with ⟨alsoLongest, alsoOfPower⟩
  rcases longest.unique alsoLongest with ⟨rfl, rfl⟩
  rcases ofPower.unique alsoOfPower with ⟨rfl, rfl⟩
  exact ⟨rfl, rfl⟩

/-- A sign and a numeral after it are an uncertainty that is not absent. -/
theorem DividesNumeral.not_beginsWithNone {numeral : WrittenNumeral}
    (divides : DividesNumeral IsMantissa text numeral rest) (isSign : sign ∈ plusMinusSigns) :
    ¬BeginsWithNone IsUncertainty (sign ++ text) := by
  rcases divides with ⟨longest, _⟩
  intro isAbsent
  refine isAbsent _ ?_ (.intro isSign longest.hasForm)
  rw [longest.split, ← List.append_assoc]
  exact List.prefix_append _ _

theorem DividesUncertainty.unique
    {uncertainty otherUncertainty : Option (List Char × WrittenNumeral)}
    (divides : DividesUncertainty text uncertainty rest)
    (alsoDivides : DividesUncertainty text otherUncertainty otherRest) :
    uncertainty = otherUncertainty ∧ rest = otherRest := by
  cases divides with
  | present isSign split divides =>
      subst split
      cases alsoDivides with
      | present alsoSign same alsoDivides =>
          rcases eq_of_sign_append isSign alsoSign same with ⟨rfl, rfl⟩
          rcases divides.unique alsoDivides with ⟨rfl, rfl⟩
          exact ⟨rfl, rfl⟩
      | absent isAbsent => exact False.elim (divides.not_beginsWithNone isSign isAbsent)
  | absent isAbsent =>
      cases alsoDivides with
      | present alsoSign same alsoDivides =>
          subst same
          exact False.elim (alsoDivides.not_beginsWithNone alsoSign isAbsent)
      | absent => exact ⟨rfl, rfl⟩

/-- A text is divided in at most one way. -/
theorem Divides.unique {literal otherLiteral : WrittenLiteral} (divides : Divides text literal)
    (alsoDivides : Divides text otherLiteral) : literal = otherLiteral := by
  rcases divides with ⟨ofValue, ofUncertainty⟩
  rcases alsoDivides with ⟨alsoOfValue, alsoOfUncertainty⟩
  rcases ofValue.unique alsoOfValue with ⟨rfl, rfl⟩
  rcases ofUncertainty.unique alsoOfUncertainty with ⟨rfl, rfl⟩
  rfl

end Unique

section Text

variable {text rest : List Char}

theorem DividesNumeral.text_append {form : List Char → Prop} {numeral : WrittenNumeral}
    (divides : DividesNumeral form text numeral rest) : numeral.text ++ rest = text := by
  rcases divides with ⟨longest, _ | _⟩
  · rename_i ofPower
    simp [WrittenNumeral.text, longest.split, ofPower.split]
  · simp [WrittenNumeral.text, longest.split]

/-- The parts of a text are together the whole text. -/
theorem Divides.text_eq {literal : WrittenLiteral} (divides : Divides text literal) :
    literal.text = text := by
  rcases divides with ⟨ofValue, ofUncertainty⟩
  rw [← ofValue.text_append]
  cases ofUncertainty with
  | present _ split divides =>
      subst split
      simp [WrittenLiteral.text, ← divides.text_append]
  | absent => simp [WrittenLiteral.text]

end Text

section Begin

variable {text rest : List Char}

theorem IsMantissa.beginsNumeral (isMantissa : IsMantissa text) : BeginsNumeral (text ++ rest) := by
  cases isMantissa with
  | whole isDigits | point isDigits _ =>
      rcases isDigits with ⟨nonempty, digital⟩
      rcases List.exists_cons_of_ne_nil nonempty with ⟨first, others, rfl⟩
      exact .digit (digital first (by simp))
  | fraction isDigits =>
      rcases isDigits with ⟨nonempty, digital⟩
      rcases List.exists_cons_of_ne_nil nonempty with ⟨first, others, rfl⟩
      exact .point (digital first (by simp))

theorem BeginsNumeral.exists_isMantissa (begins : BeginsNumeral text) :
    ∃ mantissa, mantissa <+: text ∧ IsMantissa mantissa := by
  cases begins with
  | @digit first rest isDigit => exact ⟨[first], ⟨rest, rfl⟩, .whole ⟨by simp, by simpa⟩⟩
  | @point first rest isDigit => exact ⟨['.', first], ⟨rest, rfl⟩, .fraction ⟨by simp, by simpa⟩⟩

/-- A text begins with a mantissa just if its first characters are those of one. -/
theorem beginsWithNone_iff :
    BeginsWithNone (IsSigned IsMantissa) text ↔ ¬IsSigned BeginsNumeral text := by
  constructor
  · intro isAbsent begins
    cases begins with
    | unsigned begins =>
        rcases begins.exists_isMantissa with ⟨mantissa, isPrefix, isMantissa⟩
        exact isAbsent mantissa isPrefix (.unsigned isMantissa)
    | negative begins =>
        rcases begins.exists_isMantissa with ⟨mantissa, isPrefix, isMantissa⟩
        exact isAbsent ('-' :: mantissa) (List.cons_prefix_cons.mpr ⟨rfl, isPrefix⟩)
          (.negative isMantissa)
  · rintro noBegin other ⟨rest, rfl⟩ hasForm
    cases hasForm with
    | unsigned isMantissa => exact noBegin (.unsigned isMantissa.beginsNumeral)
    | negative isMantissa => exact noBegin (.negative isMantissa.beginsNumeral)

end Begin

end LiteralGrammar

end Metrology

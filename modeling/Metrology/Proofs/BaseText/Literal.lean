import Metrology.Proofs.BaseText.Product

/-!
# Written dimensions as unit literals

What is written for a dimension is a numerator and a denominator, both runs of base units. This file
shows that neither blanks nor slashes can occur in a run, so that the unit literal is divided at the
place where it was put together: the numerator is read first, and the denominator after it.
-/

namespace Metrology.BaseText

open Segmentation UnitSystem

def powers (exponents : BaseUnit → Int) (base : BaseUnit) : Nat :=
  (exponents base).natAbs

def positiveBases (exponents : BaseUnit → Int) : List BaseUnit :=
  BaseUnit.all.filter fun base => 0 < exponents base

/-- The run that is written for the positive ones of given exponents. -/
def positiveText (exponents : BaseUnit → Int) : List Char :=
  runText (powers exponents) (positiveBases exponents)

variable {dimension : Dimension}

theorem flatMap_ite {α β : Type} (condition : α → Prop) [DecidablePred condition]
    (text : α → List β) (items : List α) :
    (items.flatMap fun item => if condition item then text item else []) =
      (items.filter fun item => condition item).flatMap text := by
  induction items with
  | nil => rfl
  | cons item items ih =>
      rw [List.flatMap_cons, ih, List.filter_cons]
      split <;> simp_all

theorem numeratorText_eq (dimension : Dimension) :
    dimension.numeratorText = positiveText dimension.toInts :=
  flatMap_ite _ _ _

theorem denominatorText_eq (dimension : Dimension) :
    dimension.denominatorText = positiveText fun base => -dimension.toInts base := by
  have isPower : powers (fun base => -dimension.toInts base) = powers dimension.toInts := by
    funext base
    exact Int.natAbs_neg _
  simp only [positiveText, positiveBases, isPower, Int.neg_pos]
  exact flatMap_ite _ _ _

theorem mem_positiveBases {exponents : BaseUnit → Int} {base : BaseUnit} :
    base ∈ positiveBases exponents ↔ 0 < exponents base := by
  simp [positiveBases, base.mem_all]

theorem isRun_positiveBases (exponents : BaseUnit → Int) :
    IsRun (powers exponents) (positiveBases exponents) := by
  refine ⟨List.filter_sublist, fun base member => ?_⟩
  rw [mem_positiveBases] at member
  unfold powers
  omega

/-- Written runs have neither blanks nor slashes. -/
theorem plain_of_mem_runText {power : BaseUnit → Nat} {bases : List BaseUnit} {character : Char}
    (member : character ∈ runText power bases) :
    Text.isBlank character = false ∧ character ≠ '/' := by
  have plainSymbol : (BaseUnit.all.all fun base => ('^' :: base.symbol).all fun character =>
      Text.isBlank character = false ∧ character ≠ '/') = true := by decide
  simp only [List.all_eq_true, decide_eq_true_eq] at plainSymbol
  rw [runText, List.mem_flatMap] at member
  rcases member with ⟨base, _, inFactor⟩
  rw [factorText_eq, List.mem_append] at inFactor
  rcases inFactor with inSymbol | inPower
  · exact plainSymbol base base.mem_all character (List.mem_cons_of_mem _ inSymbol)
  · unfold powerText at inPower
    split at inPower
    · rcases List.mem_cons.mp inPower with rfl | inDigits
      · exact plainSymbol base base.mem_all '^' (by simp)
      · have digital := Decimal.isDigit_of_mem_digitsOf inDigits
        refine ⟨Text.isBlank_eq_false_of_isDigit digital, ?_⟩
        rintro rfl
        revert digital
        decide
    · cases inPower

theorem runText_ne_one {power : BaseUnit → Nat} {bases : List BaseUnit} :
    runText power bases ≠ ['1'] := by
  cases bases with
  | nil => simp [runText]
  | cons base bases => cases base <;> simp [runText_cons, BaseUnit.symbol]

theorem mem_baseText {character : Char} (member : character ∈ dimension.baseText) :
    character ∈ dimension.numeratorText ∨ character ∈ dimension.denominatorText ∨
      character = '1' ∨ character = '/' := by
  unfold Dimension.baseText at member
  split at member
  · exact .inl member
  · simp only [List.mem_cons] at member
    rcases member with rfl | rfl | inDenominator
    · exact .inr (.inr (.inl rfl))
    · exact .inr (.inr (.inr rfl))
    · exact .inr (.inl inDenominator)
  · simp only [List.mem_append, List.mem_cons] at member
    rcases member with inNumerator | rfl | inDenominator
    · exact .inl inNumerator
    · exact .inr (.inr (.inr rfl))
    · exact .inr (.inl inDenominator)

theorem compact_baseText (dimension : Dimension) :
    Text.compact dimension.baseText = dimension.baseText := by
  refine List.filter_eq_self.mpr ?_
  intro character member
  rw [Bool.not_eq_true']
  rcases mem_baseText member with inNumerator | inDenominator | rfl | rfl
  · rw [numeratorText_eq] at inNumerator
    exact (plain_of_mem_runText inNumerator).1
  · rw [denominatorText_eq] at inDenominator
    exact (plain_of_mem_runText inDenominator).1
  · decide
  · decide

theorem slash_notMem_runText {power : BaseUnit → Nat} {bases : List BaseUnit} :
    '/' ∉ runText power bases :=
  fun member => (plain_of_mem_runText member).2 rfl

/-- A written dimension is read as its numerator and then its denominator. -/
theorem parse_expression (dimension : Dimension) :
    builtin.parse dimension.expression =
      (readRun dimension.expression 1 .one dimension.numeratorText >>= fun unit =>
        readRun dimension.expression (-1) unit dimension.denominatorText) := by
  have noSlash : '/' ∉ dimension.numeratorText := by
    rw [numeratorText_eq]
    exact slash_notMem_runText
  have noSlashBelow : '/' ∉ dimension.denominatorText := by
    rw [denominatorText_eq]
    exact slash_notMem_runText
  have numeratorNotOne : dimension.numeratorText ≠ ['1'] := by
    rw [numeratorText_eq]
    exact runText_ne_one
  have denominatorNotOne : dimension.denominatorText ≠ ['1'] := by
    rw [denominatorText_eq]
    exact runText_ne_one
  have isCompact : Text.compact dimension.expression.toList = dimension.baseText := by
    rw [Dimension.expression, String.toList_ofList, compact_baseText]
  rw [parse, isCompact, Dimension.baseText]
  generalize dimension.numeratorText = numerator at noSlash numeratorNotOne
  generalize dimension.denominatorText = denominator at noSlashBelow denominatorNotOne
  cases denominator with
  | nil =>
      cases numerator with
      | nil =>
          rw [readRun_nil]
          exact readRun_nil.symm
      | cons first others =>
          simp only [List.splitOn_eq_singleton noSlash]
          rw [multiplyRun_eq_readRun (by simp) numeratorNotOne]
          cases readRun dimension.expression 1 .one (first :: others) with
          | error _ => rfl
          | ok unit => exact readRun_nil.symm
  | cons first others =>
      have pieces := List.splitOn_eq_singleton noSlashBelow
      cases numerator with
      | nil =>
          have isSplit : ('1' :: '/' :: first :: others).splitOn '/' =
              [['1'], first :: others] := by
            rw [← pieces]
            have noSlashInOne : '/' ∉ ['1'] := by decide
            exact List.splitOn_append_cons_self_of_not_mem noSlashInOne _
          simp only [isSplit, readRun_nil]
          exact multiplyRun_eq_readRun (by simp) denominatorNotOne
      | cons second rest =>
          have isSplit : (second :: rest ++ '/' :: first :: others).splitOn '/' =
              [second :: rest, first :: others] := by
            rw [← pieces]
            exact List.splitOn_append_cons_self_of_not_mem noSlash _
          simp only [isSplit]
          rw [multiplyRun_eq_readRun (by simp) numeratorNotOne]
          congr 1
          funext unit
          exact multiplyRun_eq_readRun (by simp) denominatorNotOne

end Metrology.BaseText

import Mathlib.Data.List.Forall2
import Metrology.Proofs.BaseText.Symbol

/-!
# Runs of base units

The numerator and the denominator of a written dimension are runs of base units with their powers.
This file compares every way to cut such a run into terms with the way in which it was written. As
long as the run does not begin with a single meter before other units, every cut has one term for
each base unit, and the terms that were written make up the best of them. A single meter before
other units is lost: it joins the next unit as the prefix milli, which takes one term less.
-/

namespace Metrology.BaseText

open Segmentation UnitSystem

def powerText (power : Nat) : List Char :=
  if 1 < power then '^' :: Decimal.digitsOf power else []

/-- Whether a text neither begins with a caret nor with a digit, so that no power can go on in
it. -/
def EndsPower (text : List Char) : Prop :=
  ∀ next ∈ text.head?, next ≠ '^' ∧ next.isDigit = false

theorem factorText_eq (base : BaseUnit) (power : Nat) :
    Dimension.factorText base power = base.symbol ++ powerText power :=
  rfl

theorem writtenExponent_powerText {power : Nat} {text : List Char} (positive : 1 ≤ power)
    (bounded : power < 2 ^ 31) (ends : EndsPower text) :
    WrittenExponent (powerText power) (Int32.ofNat power) text := by
  unfold powerText
  split
  · have isCaret : WrittenExponent ('^' :: Decimal.digitsOf power)
        (Int32.ofNat (Decimal.ofDigits (Decimal.digitsOf power))) text :=
      .caret (fun digit member => Decimal.isDigit_of_mem_digitsOf member)
        (fun next isNext => (ends next isNext).2) (by simpa) (by simpa)
    rwa [Decimal.ofDigits_digitsOf] at isCaret
  · have isOne : power = 1 := by omega
    subst isOne
    exact .absent ends

/-- A power can only be read where it was written, and only if it is a 32-bit number. -/
theorem eq_powerText_of_writtenExponent {power : Nat} {exponent : Int32}
    {written rest text : List Char} (exponentWritten : WrittenExponent written exponent rest)
    (same : written ++ rest = powerText power ++ text) (positive : 1 ≤ power)
    (ends : EndsPower text) :
    power < 2 ^ 31 ∧ written = powerText power ∧ exponent = Int32.ofNat power ∧ rest = text := by
  have bounded : power < 2 ^ 31 := by
    by_cases isOne : power = 1
    · omega
    · have isCaret : powerText power = '^' :: Decimal.digitsOf power := if_pos (by omega)
      rw [isCaret, List.cons_append] at same
      cases exponentWritten with
      | absent noPower => exact False.elim ((noPower '^' (by simp_all)).1 rfl)
      | digit low high =>
          have isHead := ((List.cons.injEq _ _ _ _).mp same).1
          exact False.elim (ne_caret_of_isDigit (isDigit_of_two_le low high) isHead)
      | @caret digits _ digital noDigit _ bounded =>
          have sameTail := ((List.cons.injEq _ _ _ _).mp same).2
          have taken : (digits ++ rest).takeWhile Char.isDigit =
              (Decimal.digitsOf power ++ text).takeWhile Char.isDigit :=
            congrArg (List.takeWhile Char.isDigit) sameTail
          rw [takeWhile_append_of_ends digital noDigit,
            takeWhile_append_of_ends (fun digit member => Decimal.isDigit_of_mem_digitsOf member)
              fun next isNext => (ends next isNext).2] at taken
          rwa [taken, Decimal.ofDigits_digitsOf] at bounded
  exact ⟨bounded, exponentWritten.unique (writtenExponent_powerText positive bounded ends) same⟩

/-- Base units in a row, each with its power. -/
def runText (power : BaseUnit → Nat) (bases : List BaseUnit) : List Char :=
  bases.flatMap fun base => Dimension.factorText base (power base)

/-- Base units in the order in which they are written, each with a positive power. -/
structure IsRun (power : BaseUnit → Nat) (bases : List BaseUnit) : Prop where
  ordered : bases.Sublist BaseUnit.all
  positive : ∀ base ∈ bases, 1 ≤ power base

/-- Whether a single meter is written only where no other unit follows. -/
def MeterAlone (power : BaseUnit → Nat) (bases : List BaseUnit) : Prop :=
  .meter ∈ bases → power .meter = 1 → bases = [.meter]

variable {power : BaseUnit → Nat} {base : BaseUnit} {bases : List BaseUnit}

theorem IsRun.tail (isRun : IsRun power (base :: bases)) : IsRun power bases :=
  ⟨(List.sublist_cons_self base bases).trans isRun.ordered,
    fun other member => isRun.positive other (List.mem_cons_of_mem base member)⟩

theorem IsRun.meter_notMem_tail (isRun : IsRun power (base :: bases)) : .meter ∉ bases := by
  intro member
  have inOthers := isRun.ordered.tail.subset member
  revert inOthers
  decide

theorem meterAlone_of_notMem (noMeter : .meter ∉ bases) : MeterAlone power bases :=
  fun member => absurd member noMeter

theorem head_runText (noMeter : .meter ∉ bases) :
    ∀ next ∈ (runText power bases).head?, next ∈ initials := by
  intro next isNext
  cases bases with
  | nil => simp [runText] at isNext
  | cons base bases =>
      cases base
      case meter => simp at noMeter
      all_goals
        simp only [runText, List.flatMap_cons, Dimension.factorText, BaseUnit.symbol,
          List.cons_append, List.head?_cons, Option.mem_def, Option.some.injEq] at isNext
        subst next
        decide

/-- No power can go on after the first base unit of a run. -/
theorem IsRun.endsPower (isRun : IsRun power (base :: bases)) :
    EndsPower (runText power bases) := by
  have noPower : (initials.all fun next => next ≠ '^' ∧ next.isDigit = false) = true := by decide
  simp only [List.all_eq_true, decide_eq_true_eq] at noPower
  exact fun next isNext => noPower next (head_runText isRun.meter_notMem_tail next isNext)

/-- What is written after the symbol of the first base unit of a run. -/
theorem IsRun.follows (isRun : IsRun power (base :: bases)) :
    Follows (powerText (power base) ++ runText power bases) := by
  intro next isNext
  unfold powerText at isNext
  split at isNext
  · simp only [List.cons_append, List.head?_cons, Option.mem_def, Option.some.injEq] at isNext
    subst next
    simp [following]
  · exact List.mem_cons_of_mem _ (head_runText isRun.meter_notMem_tail next isNext)

end Metrology.BaseText

import Mathlib.Algebra.BigOperators.Group.List.Basic
import Metrology.Proofs.BaseText.Segmentation
import Metrology.Proofs.UnitSystem.Product

/-!
# Products of runs of base units

This file follows a run of base units from its text to the exponents that it stands for. A run that
is written clearly and with powers in the 32-bit range gives exactly its powers; with a power out of
range it is no sequence of units; and where a single meter was written before other units, the
exponent of the meter stays as it was.
-/

namespace Metrology.BaseText

open Segmentation UnitSystem

/-- A unit times the units of a run, or divided by them where the sign is negative. An empty run has
no units. -/
def readRun (literal : String) (sign : Int32) (unit : UnitOfMeasure) (run : List Char) :
    Except UnitError UnitOfMeasure :=
  match builtin.segment? run with
  | none => .error (.malformed literal)
  | some terms => multiplyTerms sign unit terms

variable {power : BaseUnit → Nat} {base : BaseUnit} {bases : List BaseUnit} {sign : Int32}
  {literal : String} {unit result : UnitOfMeasure}

theorem multiplyRun_eq_readRun {run : List Char} (nonempty : run ≠ []) (notOne : run ≠ ['1']) :
    builtin.multiplyRun literal sign unit run = readRun literal sign unit run := by
  rw [multiplyRun, if_neg (by simpa using nonempty), if_neg notOne]
  rfl

theorem readRun_nil : readRun literal sign unit [] = .ok unit := by
  rw [readRun, segment?, choices, follow]
  rfl

def IsSign (sign : Int32) : Prop :=
  sign = 1 ∨ sign = -1

theorem isSign_one : IsSign 1 :=
  .inl rfl

theorem isSign_neg_one : IsSign (-1) :=
  .inr rfl

theorem toInt_ofNat_mul {exponent : Nat} (isSign : IsSign sign) (bounded : exponent < 2 ^ 31) :
    (Int32.ofNat exponent * sign).toInt = sign.toInt * exponent := by
  rw [Int32.toInt_mul, Int32.toInt_ofNat_of_lt bounded]
  rcases isSign with rfl | rfl
  · simp only [Int32.reduceToInt]
    rw [Int.bmod_eq_of_le] <;> omega
  · simp only [Int32.reduceToInt]
    rw [Int.bmod_eq_of_le] <;> omega

theorem exponentOf_baseWritten (isSign : IsSign sign) (bounded : power base < 2 ^ 31)
    (other : BaseUnit) :
    (baseWritten power base).term.exponentOf sign other =
      if other = base then sign.toInt * power base else 0 := by
  change (unitAt (baseRow base)).unit.dimension.toInts other *
    (Int32.ofNat (power base) * sign).toInt = _
  rw [dimension_baseRow, Dimension.toInts_ofBase, toInt_ofNat_mul isSign bounded]
  split <;> simp

theorem productInRange_baseWritten {exponents : BaseUnit → Int} (isSign : IsSign sign)
    (distinct : bases.Nodup) (bounded : ∀ base ∈ bases, power base < 2 ^ 31)
    (inRange : ∀ base, Dimension.InRange (exponents base))
    (fresh : ∀ base ∈ bases, exponents base = 0) :
    ProductInRange sign exponents (bases.map fun base => (baseWritten power base).term) := by
  induction bases generalizing exponents with
  | nil => trivial
  | cons base bases ih =>
      rcases List.nodup_cons.mp distinct with ⟨notLater, distinctLater⟩
      have isBounded := bounded base (by simp)
      have isFresh := fresh base (by simp)
      have powerInRange : Dimension.InRange (sign.toInt * power base) := by
        rcases isSign with rfl | rfl <;>
          simp only [Dimension.InRange, Int32.reduceToInt] <;> omega
      have sumInRange : ∀ other, Dimension.InRange
          (exponents other + (baseWritten power base).term.exponentOf sign other) := by
        intro other
        rw [exponentOf_baseWritten isSign isBounded]
        split
        · subst other
          rwa [isFresh, Int.zero_add]
        · rw [Int.add_zero]
          exact inRange other
      refine ⟨?_, sumInRange, ?_⟩
      · intro other
        rw [exponentOf_baseWritten isSign isBounded]
        split
        · exact powerInRange
        · decide
      · refine ih distinctLater (fun other member => bounded other (by simp [member])) sumInRange ?_
        intro other member
        have isOther : other ≠ base := fun same => notLater (same ▸ member)
        rw [exponentOf_baseWritten isSign isBounded, if_neg isOther, Int.add_zero]
        exact fresh other (by simp [member])

theorem sum_exponentOf_baseWritten (isSign : IsSign sign) (distinct : bases.Nodup)
    (bounded : ∀ base ∈ bases, power base < 2 ^ 31) (other : BaseUnit) :
    ((bases.map fun base => (baseWritten power base).term).map
        fun term => term.exponentOf sign other).sum =
      if other ∈ bases then sign.toInt * power other else 0 := by
  induction bases with
  | nil => rfl
  | cons base bases ih =>
      rcases List.nodup_cons.mp distinct with ⟨notLater, distinctLater⟩
      have later := ih distinctLater fun other member => bounded other (by simp [member])
      rw [List.map_cons, List.map_cons, List.sum_cons, later,
        exponentOf_baseWritten isSign (bounded base (by simp))]
      by_cases isBase : other = base
      · subst other
        simp [notLater]
      · simp [isBase]

theorem IsRun.nodup (isRun : IsRun power bases) : bases.Nodup :=
  isRun.ordered.nodup (by decide)

/-- A run that is written clearly and with powers in range gives exactly its powers. -/
theorem exists_readRun (literal : String) (isRun : IsRun power bases)
    (meterAlone : MeterAlone power bases) (bounded : ∀ base ∈ bases, power base < 2 ^ 31)
    (isSign : IsSign sign) (fresh : ∀ base ∈ bases, unit.dimension.toInts base = 0) :
    ∃ result, readRun literal sign unit (runText power bases) = .ok result ∧
      ∀ base, result.dimension.toInts base =
        unit.dimension.toInts base +
          if base ∈ bases then sign.toInt * power base else 0 := by
  have segmented := segment?_of_isBestCut (isBestCut_runText isRun meterAlone bounded)
  rw [List.map_map] at segmented
  rcases exists_multiplyTerms (productInRange_baseWritten isSign isRun.nodup bounded
    (Dimension.inRange_toInts unit.dimension) fresh) with ⟨result, isResult⟩
  refine ⟨result, ?_, ?_⟩
  · rw [readRun, segmented]
    exact isResult
  · intro base
    rw [toInts_of_multiplyTerms isResult, sum_exponentOf_baseWritten isSign isRun.nodup bounded]

/-- A run that is written clearly, but with a power out of range, is no sequence of units. -/
theorem readRun_eq_error (literal : String) (sign : Int32) (unit : UnitOfMeasure)
    (isRun : IsRun power bases) (meterAlone : MeterAlone power bases)
    (isBase : base ∈ bases) (outside : 2 ^ 31 ≤ power base) :
    readRun literal sign unit (runText power bases) = .error (.malformed literal) := by
  have noTerms : builtin.segment? (runText power bases) = none := by
    rw [segment?_eq_none_iff]
    intro cut isCut
    have bounded := bounded_of_reads (reads_of_isCut isRun meterAlone isCut) base isBase
    omega
  rw [readRun, noTerms]

/-- Without a meter in the best cut, the exponent of the meter stays as it was. -/
theorem meter_of_readRun {run : List Char}
    (noMeter : ∀ cut, IsBestCut builtin run cut →
      ∀ written ∈ cut, written.unit.unit.dimension.meter = 0)
    (isResult : readRun literal sign unit run = .ok result) :
    result.dimension.meter = unit.dimension.meter := by
  rw [readRun] at isResult
  split at isResult
  · cases isResult
  · rename_i terms found
    rcases exists_isBestCut_of_segment? found with ⟨cut, best, rfl⟩
    have exponent := toInts_of_multiplyTerms isResult .meter
    have noSum : ((cut.map WrittenTerm.term).map fun term => term.exponentOf sign .meter).sum =
        0 := by
      refine List.sum_eq_zero ?_
      simp only [List.mem_map]
      rintro _ ⟨_, ⟨written, member, rfl⟩, rfl⟩
      have isZero : written.term.unit.unit.dimension.toInts .meter = 0 :=
        congrArg Int32.toInt (noMeter cut best written member)
      rw [Term.exponentOf, isZero, Int.zero_mul]
    rw [noSum, Int.add_zero] at exponent
    exact Int32.toInt_inj.mp exponent

end Metrology.BaseText

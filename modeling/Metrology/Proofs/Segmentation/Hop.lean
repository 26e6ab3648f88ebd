import Metrology.Proofs.Segmentation.Optimality
import Metrology.Proofs.Text.Offset

/-!
# The terms at a byte offset

The best cut of a run can also be searched for by byte offsets, with a table that has an entry for
every offset. Such a search cuts the run and looks at the table at computed offsets, and each of
these offsets could be wrong: within a character, or past the end. A `Breach` says so, and nothing
continues after it.

This file finds the terms at an offset. Where the offset is a boundary no breach occurs, and the
terms are those that `steps` lists for the text from there on, each with the offset of what
follows it.
-/

namespace Metrology.Segmentation

open String (utf8Len)
open Text (IsBoundary cut?)

/-- What a search by offsets must never do. -/
inductive Breach where
  /-- To cut a text where it has no boundary. -/
  | cut (offset : Nat)
  /-- To look at an entry that the table does not have. -/
  | entry (offset : Nat)

/-- A term at some offset of a run, the offset of what follows it, and the number of terms from it
on. -/
structure Hop where
  term : Term
  next : Nat
  count : Nat

def cutAt (text : List Char) (offset : Nat) : Except Breach (List Char × List Char) :=
  match cut? text offset with
  | some parts => .ok parts
  | none => .error (.cut offset)

/-- The offset at which the digits that a text begins with end. -/
def digitsEnd : List Char → Nat
  | [] => 0
  | character :: text =>
      if character.isDigit then digitsEnd text + character.utf8Size else 0

/-- The exponent that follows an abbreviation and the number of bytes that it takes. -/
def exponentAt : List Char → Except Breach (Option (Int32 × Nat))
  | '^' :: text => do
      let (digits, _) ← cutAt text (digitsEnd text)
      let value := Decimal.ofDigits digits
      if 1 ≤ value ∧ value < 0x80000000 then
        return some (Int32.ofNat value, digitsEnd text + 1)
      else
        return none
  | text => return readExponent text

/-- The hop over a unit whose abbreviation begins `tail`, which is `rest` without a prefix. -/
def hopOver? (start : Nat) (rest : List Char) (metricPrefix : Option MetricPrefix)
    (tail : List Char) (unit : UnitDefinition) : Except Breach (Option Hop) := do
  if unit.abbreviation.toList.isPrefixOf tail then
    let consumed := utf8Len rest - utf8Len tail + unit.abbreviation.utf8ByteSize
    let (_, after) ← cutAt rest consumed
    let exponent? ← exponentAt after
    return exponent?.map fun (exponent, used) =>
      ⟨⟨metricPrefix, unit, exponent⟩, start + consumed + used, 0⟩
  else
    return none

/-- What may follow the prefix of a term: the text itself, or the text after its first character
for each prefix row with that symbol. -/
def headsAt (system : UnitSystem) :
    List Char → Except Breach (List (Option MetricPrefix × List Char))
  | [] => return [(none, [])]
  | first :: text => do
      let prefixed ← (system.prefixes.filter fun metricPrefix => metricPrefix.symbol == first).mapM
        fun metricPrefix => do
          let (_, tail) ← cutAt (first :: text) first.utf8Size
          return (some metricPrefix, tail)
      return (none, first :: text) :: prefixed

/-- The hops from an offset of a run, in the order of the rows. -/
def hopsAt (system : UnitSystem) (run : List Char) (start : Nat) :
    Except Breach (List Hop) := do
  let (_, rest) ← cutAt run start
  let heads ← headsAt system rest
  let hops ← heads.mapM fun (metricPrefix, tail) =>
    system.units.filterMapM (hopOver? start rest metricPrefix tail)
  return hops.flatten

/-- The hop that a step is, where the text at an offset begins with it. -/
def Step.hop (start : Nat) (rest : List Char) (step : Step) : Hop :=
  ⟨step.term, start + utf8Len (rest.take step.width), 0⟩

variable {system : UnitSystem} {run : List Char} {start : Nat}

theorem cutAt_utf8Len (before after : List Char) :
    cutAt (before ++ after) (utf8Len before) = pure (before, after) := by
  rw [cutAt, Text.cut?_utf8Len]
  rfl

theorem digitsEnd_eq (text : List Char) :
    digitsEnd text = utf8Len (text.takeWhile Char.isDigit) := by
  induction text with
  | nil => rfl
  | cons character text ih =>
      rw [digitsEnd, List.takeWhile_cons]
      split
      · rw [String.utf8Len_cons, ih]
      · rfl

theorem digitsEnd_eq_length (text : List Char) :
    digitsEnd text = (text.takeWhile Char.isDigit).length := by
  rw [digitsEnd_eq, Text.utf8Len_of_isDigit]
  intro digit member
  exact List.all_eq_true.mp List.all_takeWhile digit member

/-- The exponent is read without a breach. It takes as many bytes as characters. -/
theorem exponentAt_eq (text : List Char) : exponentAt text = pure (readExponent text) := by
  unfold exponentAt
  split
  · rename_i text
    have isCut : cutAt text (digitsEnd text) =
        pure (text.takeWhile Char.isDigit, text.dropWhile Char.isDigit) := by
      have whole := cutAt_utf8Len (text.takeWhile Char.isDigit) (text.dropWhile Char.isDigit)
      rwa [List.takeWhile_append_dropWhile, ← digitsEnd_eq] at whole
    simp only [isCut, pure_bind, readExponent]
    rw [digitsEnd_eq_length]
    split <;> rfl
  · rfl

/-- An exponent takes one byte a character. -/
theorem WrittenExponent.utf8Len_eq {written rest : List Char} {exponent : Int32}
    (isWritten : WrittenExponent written exponent rest) : utf8Len written = written.length := by
  cases isWritten with
  | absent ends => rfl
  | digit low high =>
      apply Text.utf8Len_of_isDigit
      simpa using isDigit_of_two_le low high
  | caret digital ends positive bounded =>
      rw [String.utf8Len_cons, Text.utf8Len_of_isDigit digital, List.length_cons]
      rfl

section

variable {front tail after : List Char} {metricPrefix : Option MetricPrefix}
  {unit : UnitDefinition}

theorem hopOver?_of_not_isPrefix (isNot : unit.abbreviation.toList.isPrefixOf? tail = none) :
    hopOver? start (front ++ tail) metricPrefix tail unit = pure none := by
  have notPrefix : unit.abbreviation.toList.isPrefixOf tail = false := by
    rw [← List.isSome_isPrefixOf?_eq_isPrefixOf, isNot, Option.isSome_none]
  rw [hopOver?, notPrefix]
  rfl

/-- A hop passes the prefix, the abbreviation and the exponent of its term. -/
theorem hopOver?_append (isTail : unit.abbreviation.toList ++ after = tail) :
    hopOver? start (front ++ tail) metricPrefix tail unit =
      pure ((readExponent after).map fun (exponent, used) =>
        Step.hop start (front ++ tail) ⟨⟨metricPrefix, unit, exponent⟩,
          front.length + unit.abbreviation.length + used⟩) := by
  subst isTail
  have consumed : utf8Len (front ++ (unit.abbreviation.toList ++ after)) -
      utf8Len (unit.abbreviation.toList ++ after) + unit.abbreviation.utf8ByteSize =
        utf8Len (front ++ unit.abbreviation.toList) := by
    simp only [String.utf8Len_append, String.utf8Len_toList]
    omega
  have isCut := cutAt_utf8Len (front ++ unit.abbreviation.toList) after
  rw [List.append_assoc] at isCut
  have isPrefix :
      unit.abbreviation.toList.isPrefixOf (unit.abbreviation.toList ++ after) = true := by
    simp
  simp only [hopOver?, if_pos isPrefix, consumed, isCut, pure_bind, exponentAt_eq]
  refine congrArg pure (Option.map_congr ?_)
  rintro ⟨exponent, used⟩ read
  rcases exists_writtenExponent_of_readExponent read with ⟨written, rest, rfl, isWritten, rfl⟩
  have passed : (front ++ (unit.abbreviation.toList ++ (written ++ rest))).take
      (front.length + unit.abbreviation.length + written.length) =
        front ++ unit.abbreviation.toList ++ written := by
    rw [← String.length_toList, ← List.length_append, ← List.length_append]
    simp only [← List.append_assoc]
    exact List.take_left
  simp only [Step.hop, passed, String.utf8Len_append _ written, isWritten.utf8Len_eq]
  rw [Nat.add_assoc]

theorem filterMapM_hopOver? (start : Nat) (front tail : List Char)
    (metricPrefix : Option MetricPrefix) (units : List UnitDefinition) :
    units.filterMapM (hopOver? start (front ++ tail) metricPrefix tail) =
      pure ((stepsAfter units metricPrefix front.length tail).map
        (Step.hop start (front ++ tail))) := by
  induction units with
  | nil => rfl
  | cons unit units ih =>
      rw [List.filterMapM_cons, ih, stepsAfter, stepsAfter, List.filterMap_cons]
      cases isPrefix : unit.abbreviation.toList.isPrefixOf? tail with
      | none =>
          rw [hopOver?_of_not_isPrefix isPrefix]
          rfl
      | some after =>
          rw [hopOver?_append (List.isPrefixOf?_eq_some_iff_append_eq.mp isPrefix)]
          cases read : readExponent after <;> simp [read]

end

theorem headsAt_cons (first : Char) (text : List Char) :
    headsAt system (first :: text) =
      pure ((none, first :: text) :: (system.prefixes.filter fun metricPrefix =>
        metricPrefix.symbol == first).map fun metricPrefix => (some metricPrefix, text)) := by
  have isCut : cutAt (first :: text) first.utf8Size = pure ([first], text) := by
    simpa using cutAt_utf8Len [first] text
  simp only [headsAt, isCut, pure_bind, List.mapM_pure]

/-- At a boundary the search meets no breach and finds the steps of what follows. -/
theorem hopsAt_utf8Len (before rest : List Char) :
    hopsAt system (before ++ rest) (utf8Len before) =
      pure ((steps system rest).map (Step.hop (utf8Len before) rest)) := by
  have unprefixed := filterMapM_hopOver? (utf8Len before) [] rest none system.units
  rw [List.nil_append, List.length_nil] at unprefixed
  simp only [hopsAt, cutAt_utf8Len, pure_bind]
  cases rest with
  | nil =>
      simp only [headsAt, pure_bind, List.mapM_cons, List.mapM_nil, unprefixed, List.flatten_cons,
        List.flatten_nil, List.append_nil, steps]
  | cons first text =>
      have prefixed (metricPrefix : MetricPrefix) :=
        filterMapM_hopOver? (utf8Len before) [first] text (some metricPrefix) system.units
      simp only [List.cons_append, List.nil_append, List.length_singleton] at prefixed
      simp only [headsAt_cons, pure_bind, List.mapM_cons, unprefixed, List.mapM_map,
        Function.comp_def, prefixed, List.mapM_pure, List.flatten_cons, steps, List.map_append,
        List.flatMap_def, List.map_flatten, List.map_map]

/-- The hops from a boundary lead to boundaries that are not before it. -/
theorem hopsAt_of_isBoundary (boundary : IsBoundary run start) :
    ∃ hops, hopsAt system run start = pure hops ∧
      ∀ hop ∈ hops, start ≤ hop.next ∧ IsBoundary run hop.next := by
  rcases Text.isBoundary_iff.mp boundary with ⟨before, rest, rfl, rfl⟩
  refine ⟨_, hopsAt_utf8Len before rest, ?_⟩
  intro hop member
  rcases List.mem_map.mp member with ⟨step, _, rfl⟩
  refine ⟨Nat.le_add_right _ _, ?_⟩
  have whole := Text.isBoundary_utf8Len (before ++ rest.take step.width) (rest.drop step.width)
  rwa [List.append_assoc, List.take_append_drop, String.utf8Len_append] at whole

end Metrology.Segmentation

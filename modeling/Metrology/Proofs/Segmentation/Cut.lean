import Metrology.Proofs.Segmentation.Exponent

/-!
# Cuts of a run of units

A cut of a run is a way to write it as terms, one after the other. This file says what a cut is and
which of several cuts is the best one, in terms of the rows of the tables alone: the fewest terms,
and among cuts with as few terms the first in the order of their terms from the left. A term with a
longer abbreviation comes first, then one without a prefix, then the one of earlier rows. A run has
at most one best cut.
-/

namespace Metrology.Segmentation

/-- A term as a text writes it, by the rows of the tables that it names. -/
structure WrittenTerm (system : UnitSystem) where
  prefixRow : Option (Fin system.prefixes.length)
  unitRow : Fin system.units.length
  exponentText : List Char
  exponent : Int32
deriving DecidableEq

namespace WrittenTerm

variable {system : UnitSystem}

def metricPrefix (written : WrittenTerm system) : Option MetricPrefix :=
  written.prefixRow.map fun row => system.prefixes[row]

def unit (written : WrittenTerm system) : UnitDefinition :=
  system.units[written.unitRow]

def term (written : WrittenTerm system) : Term :=
  ⟨written.metricPrefix, written.unit, written.exponent⟩

/-- The symbol of the prefix, if there is one, and the abbreviation of the unit. -/
def symbols (written : WrittenTerm system) : List Char :=
  (written.metricPrefix.map MetricPrefix.symbol).toList ++ written.unit.abbreviation.toList

def text (written : WrittenTerm system) : List Char :=
  written.symbols ++ written.exponentText

/-- The number of bytes that the abbreviation takes in UTF-8. -/
def abbreviationSize (written : WrittenTerm system) : Nat :=
  written.unit.abbreviation.utf8ByteSize

/-- The place of the prefix among all prefixes, after no prefix at all. -/
def prefixRank (written : WrittenTerm system) : Nat :=
  written.prefixRow.elim 0 fun row => row.val + 1

/-- Whether the rows of one term come before those of another. -/
def RowsBefore (left right : WrittenTerm system) : Prop :=
  left.prefixRank < right.prefixRank ∨
    left.prefixRank = right.prefixRank ∧ left.unitRow < right.unitRow

/-- Whether one term is preferred to another where both can stand. -/
def Precedes (left right : WrittenTerm system) : Prop :=
  right.abbreviationSize < left.abbreviationSize ∨
    left.abbreviationSize = right.abbreviationSize ∧ left.RowsBefore right

/-- Whether a text begins with a written term, so that the given text follows it. -/
def Begins (written : WrittenTerm system) (run rest : List Char) : Prop :=
  run = written.text ++ rest ∧ WrittenExponent written.exponentText written.exponent rest

theorem RowsBefore.asymm {left right : WrittenTerm system} (before : left.RowsBefore right) :
    ¬right.RowsBefore left := by
  unfold RowsBefore at before ⊢
  omega

theorem Precedes.asymm {left right : WrittenTerm system} (precedes : left.Precedes right) :
    ¬right.Precedes left := by
  rintro (shorter | ⟨same, before⟩)
  · rcases precedes with longer | ⟨same, _⟩ <;> omega
  · rcases precedes with longer | ⟨_, after⟩
    · omega
    · exact after.asymm before

end WrittenTerm

/-- The terms that make up a run, one after the other. -/
inductive IsCut (system : UnitSystem) : List Char → List (WrittenTerm system) → Prop where
  | nil : IsCut system [] []
  | cons {run rest : List Char} {written : WrittenTerm system} {cut : List (WrittenTerm system)}
      (begins : written.Begins run rest) (isCut : IsCut system rest cut) :
      IsCut system run (written :: cut)

/-- The cut of a run that is meant: no other has fewer terms, and those with as few come after it
where they first differ. -/
structure IsBestCut (system : UnitSystem) (run : List Char) (cut : List (WrittenTerm system)) :
    Prop where
  isCut : IsCut system run cut
  fewest : ∀ other, IsCut system run other → cut.length ≤ other.length
  first : ∀ other, IsCut system run other → other.length = cut.length →
    other = cut ∨ List.Lex WrittenTerm.Precedes cut other

variable {system : UnitSystem} {run : List Char} {cut : List (WrittenTerm system)}

/-- The texts of the terms of a cut make up the run. -/
theorem IsCut.flatMap_text (isCut : IsCut system run cut) :
    cut.flatMap WrittenTerm.text = run := by
  induction isCut with
  | nil => rfl
  | cons begins _ ih =>
      rw [List.flatMap_cons, ih]
      exact begins.1.symm

/-- Terms without characters can be left out of a cut. -/
theorem IsCut.filter_text_ne_nil (isCut : IsCut system run cut) :
    IsCut system run (cut.filter fun written => written.text ≠ []) := by
  induction isCut with
  | nil => exact .nil
  | @cons run rest written cut begins _ ih =>
      by_cases empty : written.text = []
      · have sameRun : run = rest := by simpa [empty] using begins.1
        subst sameRun
        simpa [empty] using ih
      · rw [List.filter_cons_of_pos (by simpa using empty)]
        exact .cons begins ih

/-- A cut with as few terms as possible has no term without characters. -/
theorem IsCut.text_ne_nil_of_fewest (isCut : IsCut system run cut)
    (fewest : ∀ other, IsCut system run other → cut.length ≤ other.length) :
    ∀ written ∈ cut, written.text ≠ [] := by
  have shortest := fewest _ isCut.filter_text_ne_nil
  have unfiltered := (List.filter_sublist (l := cut)
    (p := fun written => written.text ≠ [])).eq_of_length_le shortest
  simpa using List.filter_eq_self.mp unfiltered

theorem lexPrecedes_asymm {left right : List (WrittenTerm system)}
    (before : List.Lex WrittenTerm.Precedes left right) :
    ¬List.Lex WrittenTerm.Precedes right left := by
  induction before with
  | nil => rintro ⟨⟩
  | rel precedes =>
      intro after
      cases after with
      | rel follows => exact precedes.asymm follows
      | cons _ => exact precedes.asymm precedes
  | cons _ ih =>
      intro after
      cases after with
      | rel follows => exact follows.asymm follows
      | cons after => exact ih after

/-- A run has at most one best cut. -/
theorem IsBestCut.unique {other : List (WrittenTerm system)} (best : IsBestCut system run cut)
    (otherBest : IsBestCut system run other) : other = cut := by
  have sameLength : other.length = cut.length :=
    Nat.le_antisymm (otherBest.fewest cut best.isCut) (best.fewest other otherBest.isCut)
  rcases best.first other otherBest.isCut sameLength with same | before
  · exact same
  · rcases otherBest.first cut best.isCut sameLength.symm with same | after
    · exact same.symm
    · exact False.elim (lexPrecedes_asymm before after)

end Metrology.Segmentation

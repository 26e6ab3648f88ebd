import Mathlib.Data.List.Induction
import Metrology.Proofs.Segmentation.Candidate

/-!
# Segmentation finds the best cut

The cut of a run is found from the right: for every suffix a best first term is chosen, given the
choices for the suffixes that follow. This file proves that the terms read off these choices are
the best cut of the run in the sense of `IsBestCut`, and that there is no choice only where the run
has no cut at all.

The invariant is that of every suffix: its choices lead to its best cut, and the count of its choice
is the number of terms of that cut. Since the tie between two choices is settled by the first term
alone, it has to be shown that the first term of a best cut comes first in the order of rows among
all that are as good; this is where the order in which the terms are tried enters.
-/

namespace Metrology.Segmentation

namespace Choice

def prefixCount (choice : Choice) : Nat :=
  choice.step.term.metricPrefix.toList.length

theorem beats_iff {left right : Choice} :
    left.beats right = true ↔
      left.count < right.count ∨ left.count = right.count ∧
        (right.abbreviationSize < left.abbreviationSize ∨
          left.abbreviationSize = right.abbreviationSize ∧
            left.prefixCount < right.prefixCount) := by
  unfold beats prefixCount
  cases left.step.term.metricPrefix <;> cases right.step.term.metricPrefix <;> simp

theorem beats_trans {first second third : Choice} (left : first.beats second = true)
    (right : second.beats third = true) : first.beats third = true := by
  rw [beats_iff] at left right ⊢
  omega

/-- What beats a choice beats everything that does not beat that choice. -/
theorem beats_of_not_beats {first second third : Choice} (left : first.beats second = true)
    (right : third.beats second = false) : first.beats third = true := by
  rw [← Bool.not_eq_true, beats_iff] at right
  rw [beats_iff] at left ⊢
  omega

end Choice

theorem bestOf_append_singleton (candidates : List Choice) (last : Choice) :
    bestOf (candidates ++ [last]) =
      match bestOf candidates with
      | none => some last
      | some current => if last.beats current then some last else some current := by
  rw [bestOf, List.foldl_append]
  rfl

theorem eq_nil_of_bestOf_eq_none {candidates : List Choice} (noBest : bestOf candidates = none) :
    candidates = [] := by
  induction candidates using List.reverseRecOn with
  | nil => rfl
  | append_singleton candidates last ih =>
      rw [bestOf_append_singleton] at noBest
      split at noBest
      · cases noBest
      · split at noBest <;> cases noBest

/-- The best choice beats all before it and is not beaten by any after it. -/
theorem exists_split_of_bestOf_eq_some {candidates : List Choice} {best : Choice}
    (isBest : bestOf candidates = some best) :
    ∃ before after, candidates = before ++ best :: after ∧
      (∀ earlier ∈ before, best.beats earlier = true) ∧
      ∀ later ∈ after, later.beats best = false := by
  induction candidates using List.reverseRecOn generalizing best with
  | nil => cases isBest
  | append_singleton candidates last ih =>
      rw [bestOf_append_singleton] at isBest
      cases previous : bestOf candidates with
      | none =>
          rw [eq_nil_of_bestOf_eq_none previous]
          simp only [previous, Option.some.injEq] at isBest
          subst isBest
          exact ⟨[], [], rfl, by simp, by simp⟩
      | some current =>
          rcases ih previous with ⟨before, after, rfl, beatsBefore, notBeaten⟩
          simp only [previous] at isBest
          by_cases better : last.beats current = true
          · rw [if_pos better, Option.some.injEq] at isBest
            subst isBest
            refine ⟨before ++ current :: after, [], rfl, ?_, by simp⟩
            intro earlier member
            rcases List.mem_append.mp member with inBefore | inRest
            · exact Choice.beats_trans better (beatsBefore earlier inBefore)
            · rcases List.mem_cons.mp inRest with rfl | inAfter
              · exact better
              · exact Choice.beats_of_not_beats better (notBeaten earlier inAfter)
          · rw [if_neg better, Option.some.injEq] at isBest
            subst isBest
            refine ⟨before, after ++ [last], by simp, beatsBefore, ?_⟩
            intro later member
            rcases List.mem_append.mp member with inAfter | isLast
            · exact notBeaten later inAfter
            · rw [List.mem_singleton] at isLast
              subst isLast
              simpa using better

theorem drop_choices (system : UnitSystem) (run : List Char) (taken : Nat) :
    (choices system run).drop taken = choices system (run.drop taken) := by
  induction taken generalizing run with
  | zero => rfl
  | succ taken ih =>
      cases run with
      | nil => rfl
      | cons first rest => exact ih rest

variable {system : UnitSystem}

theorem choice?_of_text_eq_nil {written : WrittenTerm system} (empty : written.text = [])
    (later : List (Option Choice)) : written.step.choice? later = none := by
  simp [Step.choice?, WrittenTerm.step, empty]

/-- The choices after a term are those of the text that follows it. -/
theorem drop_choices_of_begins {first : Char} {text rest : List Char}
    {written : WrittenTerm system} (begins : written.Begins (first :: text) rest)
    (characters : written.text ≠ []) :
    (choices system text).drop (written.text.length - 1) = choices system rest := by
  cases isText : written.text with
  | nil => exact False.elim (characters isText)
  | cons character others =>
      have same := begins.1
      rw [isText, List.cons_append, List.cons.injEq] at same
      rw [drop_choices, same.2, List.length_cons, Nat.add_sub_cancel, List.drop_left]

/-- A term with characters is a choice just if the text that follows it has one. -/
theorem choice?_of_begins {first : Char} {text rest : List Char} {written : WrittenTerm system}
    (begins : written.Begins (first :: text) rest) (characters : written.text ≠ []) :
    written.step.choice? (choices system text) =
      (countOf? (choices system rest)).map fun count => ⟨written.step, count + 1⟩ := by
  have dropped := drop_choices_of_begins begins characters
  cases isText : written.text with
  | nil => exact False.elim (characters isText)
  | cons character others =>
      rw [isText, List.length_cons, Nat.add_sub_cancel] at dropped
      simp [Step.choice?, WrittenTerm.step, isText, dropped]

/-- The choices of a run lead to its best cut. -/
structure LeadTo (system : UnitSystem) (run : List Char) (cut : List (WrittenTerm system)) :
    Prop where
  best : IsBestCut system run cut
  count : countOf? (choices system run) = some cut.length
  terms : follow (choices system run) = some (cut.map WrittenTerm.term)

/-- A run that is not empty and has a cut has one whose first term has a character. -/
theorem IsCut.exists_text_ne_nil {run : List Char} {cut : List (WrittenTerm system)}
    (isCut : IsCut system run cut) (nonempty : run ≠ []) :
    ∃ (written : WrittenTerm system) (rest : List Char) (tail : List (WrittenTerm system)),
      written.Begins run rest ∧ written.text ≠ [] ∧ IsCut system rest tail ∧
        tail.length < cut.length := by
  have shortened := isCut.filter_text_ne_nil
  have shorter := List.length_filter_le (fun written => written.text ≠ []) cut
  have characters : ∀ written ∈ cut.filter fun written => written.text ≠ [],
      written.text ≠ [] := by simp
  generalize cut.filter (fun written => written.text ≠ []) = filtered
    at shortened shorter characters
  cases shortened with
  | nil => exact False.elim (nonempty rfl)
  | @cons _ rest written tail begins isCut =>
      exact ⟨written, rest, tail, begins, characters written (by simp), isCut, shorter⟩

theorem WrittenTerm.Begins.length_lt {run rest : List Char} {written : WrittenTerm system}
    (begins : written.Begins run rest) (nonempty : written.text ≠ []) :
    rest.length < run.length := by
  have positive := List.length_pos_of_ne_nil nonempty
  rw [begins.1, List.length_append]
  omega

/-- Before the best cut of what follows, a term begins the best cut of the whole if every other
term leads to more terms, or to as many and comes after it. -/
theorem IsBestCut.cons {run rest : List Char} {written : WrittenTerm system}
    {tail : List (WrittenTerm system)} (nonempty : run ≠ []) (begins : written.Begins run rest)
    (tailBest : IsBestCut system rest tail)
    (solvable : ∀ shorter cut, shorter.length < run.length → IsCut system shorter cut →
      ∃ best, IsBestCut system shorter best)
    (preferred : ∀ other otherRest otherTail, other.Begins run otherRest → other.text ≠ [] →
      IsBestCut system otherRest otherTail → tail.length ≤ otherTail.length ∧
        (tail.length = otherTail.length → other = written ∨ written.Precedes other)) :
    IsBestCut system run (written :: tail) := by
  have fewest : ∀ other, IsCut system run other → (written :: tail).length ≤ other.length := by
    intro other otherCut
    rcases otherCut.exists_text_ne_nil nonempty with
      ⟨first, otherRest, otherTail, otherBegins, characters, tailCut, shorter⟩
    rcases solvable otherRest otherTail (otherBegins.length_lt characters) tailCut with
      ⟨best, isBest⟩
    have fewer := (preferred first otherRest best otherBegins characters isBest).1
    have fewest := isBest.fewest otherTail tailCut
    rw [List.length_cons]
    omega
  refine ⟨.cons begins tailBest.isCut, fewest, ?_⟩
  intro other otherCut sameLength
  have characters := otherCut.text_ne_nil_of_fewest (by rwa [sameLength])
  cases otherCut with
  | nil => cases sameLength
  | @cons _ otherRest first otherTail otherBegins tailCut =>
      have firstCharacters := characters first (by simp)
      rcases solvable otherRest otherTail (otherBegins.length_lt firstCharacters) tailCut with
        ⟨best, isBest⟩
      rcases preferred first otherRest best otherBegins firstCharacters isBest with
        ⟨fewer, ordered⟩
      have fewest := isBest.fewest otherTail tailCut
      simp only [List.length_cons, Nat.add_right_cancel_iff] at sameLength
      rcases ordered (by omega) with rfl | precedes
      · have sameRest : otherRest = rest := by
          have same := otherBegins.1.symm.trans begins.1
          exact List.append_cancel_left same
        subst sameRest
        rcases tailBest.first otherTail tailCut sameLength with rfl | before
        · exact .inl rfl
        · exact .inr (.cons before)
      · exact .inr (.rel precedes)

theorem choices_cons (first : Char) (text : List Char) :
    choices system (first :: text) =
      bestOf ((writtenAt system (first :: text)).filterMap fun written =>
        written.step.choice? (choices system text)) :: choices system text := by
  rw [choices, steps_eq_map_step, List.filterMap_map]
  rfl

theorem prefixCount_step (written : WrittenTerm system) (count : Nat) :
    (⟨written.step, count⟩ : Choice).prefixCount = min 1 written.prefixRank := by
  rcases written with ⟨_ | row, _, _, _⟩
  · rfl
  · simp [Choice.prefixCount, WrittenTerm.step, WrittenTerm.term, WrittenTerm.metricPrefix,
      WrittenTerm.prefixRank]

theorem compare_of_beats {written other : WrittenTerm system} {count otherCount : Nat}
    (beats : (⟨written.step, count + 1⟩ : Choice).beats ⟨other.step, otherCount + 1⟩ = true) :
    count ≤ otherCount ∧ (count = otherCount → other = written ∨ written.Precedes other) := by
  rw [Choice.beats_iff, prefixCount_step, prefixCount_step] at beats
  change count + 1 < otherCount + 1 ∨ count + 1 = otherCount + 1 ∧
    (other.abbreviationSize < written.abbreviationSize ∨
      written.abbreviationSize = other.abbreviationSize ∧
        min 1 written.prefixRank < min 1 other.prefixRank) at beats
  unfold WrittenTerm.Precedes WrittenTerm.RowsBefore
  omega

theorem compare_of_not_beats {written other : WrittenTerm system} {count otherCount : Nat}
    (notBeaten : (⟨other.step, otherCount + 1⟩ : Choice).beats ⟨written.step, count + 1⟩ = false)
    (rowsBefore : written.RowsBefore other) :
    count ≤ otherCount ∧ (count = otherCount → other = written ∨ written.Precedes other) := by
  rw [← Bool.not_eq_true, Choice.beats_iff] at notBeaten
  change ¬(otherCount + 1 < count + 1 ∨ otherCount + 1 = count + 1 ∧
    (written.abbreviationSize < other.abbreviationSize ∨ _)) at notBeaten
  unfold WrittenTerm.Precedes
  refine ⟨by omega, fun same => .inr ?_⟩
  by_cases longer : other.abbreviationSize < written.abbreviationSize
  · exact .inl longer
  · exact .inr ⟨by omega, rowsBefore⟩

/-- The term whose choice is the best leads to the fewest terms, and comes before every other term
that leads to as few. -/
theorem exists_written_of_bestOf {first : Char} {text : List Char} {best : Choice}
    (isBest : bestOf ((writtenAt system (first :: text)).filterMap fun written =>
      written.step.choice? (choices system text)) = some best) :
    ∃ (written : WrittenTerm system) (rest : List Char) (count : Nat),
      written.Begins (first :: text) rest ∧ written.text ≠ [] ∧
        countOf? (choices system rest) = some count ∧ best = ⟨written.step, count + 1⟩ ∧
        ∀ (other : WrittenTerm system) (otherRest : List Char) (otherCount : Nat),
          other.Begins (first :: text) otherRest → other.text ≠ [] →
          countOf? (choices system otherRest) = some otherCount →
          count ≤ otherCount ∧ (count = otherCount → other = written ∨ written.Precedes other) := by
  rcases exists_split_of_bestOf_eq_some isBest with ⟨before, after, split, beatsBefore, notBeaten⟩
  rcases List.filterMap_eq_append_iff.mp split with ⟨front, back, isAll, isBefore, isRest⟩
  rcases List.filterMap_eq_cons_iff.mp isRest with
    ⟨skipped, written, behind, rfl, noChoice, isChoice, isAfter⟩
  have inList : written ∈ writtenAt system (first :: text) := by simp [isAll]
  rcases mem_writtenAt.mp inList with ⟨rest, begins⟩
  have characters : written.text ≠ [] := by
    intro empty
    rw [choice?_of_text_eq_nil empty] at isChoice
    cases isChoice
  rw [choice?_of_begins begins characters, Option.map_eq_some_iff] at isChoice
  rcases isChoice with ⟨count, isCount, rfl⟩
  refine ⟨written, rest, count, begins, characters, isCount, rfl, ?_⟩
  intro other otherRest otherCount otherBegins otherCharacters isOtherCount
  have otherChoice := choice?_of_begins otherBegins otherCharacters
  rw [isOtherCount, Option.map_some] at otherChoice
  have inOrder := pairwise_rowsBefore_writtenAt system (first :: text)
  have otherInList := mem_writtenAt.mpr ⟨otherRest, otherBegins⟩
  rw [isAll] at inOrder otherInList
  simp only [List.mem_append, List.mem_cons] at otherInList
  rcases otherInList with inFront | inSkipped | rfl | inBehind
  · have beaten := beatsBefore _ (isBefore ▸ List.mem_filterMap.mpr ⟨other, inFront, otherChoice⟩)
    exact compare_of_beats beaten
  · rw [noChoice other inSkipped] at otherChoice
    cases otherChoice
  · have sameRest := List.append_cancel_left (otherBegins.1.symm.trans begins.1)
    rw [sameRest, isCount, Option.some.injEq] at isOtherCount
    exact ⟨Nat.le_of_eq isOtherCount, fun _ => .inl rfl⟩
  · have unbeaten := notBeaten _ (isAfter ▸ List.mem_filterMap.mpr ⟨other, inBehind, otherChoice⟩)
    have rowsBefore := (List.pairwise_cons.mp
      (List.pairwise_append.mp (List.pairwise_append.mp inOrder).2.1).2.1).1 other inBehind
    exact compare_of_not_beats unbeaten rowsBefore

/-- The choices of a run are right: they lead to its best cut, or it has no cut and they say so. -/
def Settled (system : UnitSystem) (run : List Char) : Prop :=
  (∃ cut, LeadTo system run cut) ∨
    (∀ cut, ¬IsCut system run cut) ∧ countOf? (choices system run) = none ∧
      follow (choices system run) = none

theorem Settled.exists_leadTo_of_isCut {run : List Char} {cut : List (WrittenTerm system)}
    (settled : Settled system run) (isCut : IsCut system run cut) :
    ∃ best, LeadTo system run best := by
  rcases settled with solved | ⟨noCut, _⟩
  · exact solved
  · exact False.elim (noCut cut isCut)

theorem Settled.exists_leadTo_of_count {run : List Char} {count : Nat}
    (settled : Settled system run) (isCount : countOf? (choices system run) = some count) :
    ∃ best, LeadTo system run best ∧ best.length = count := by
  rcases settled with ⟨best, solved⟩ | ⟨_, noCount, _⟩
  · rw [solved.count, Option.some.injEq] at isCount
    exact ⟨best, solved, isCount⟩
  · rw [noCount] at isCount
    cases isCount

theorem settled_nil : Settled system [] := by
  refine .inl ⟨[], ⟨.nil, by simp, ?_⟩, rfl, by rw [choices, follow, List.map_nil]⟩
  intro other _ empty
  exact .inl (List.eq_nil_of_length_eq_zero empty)

/-- Where nothing can be chosen there is no cut. -/
theorem no_cut_of_bestOf_eq_none {first : Char} {text : List Char}
    (settled : ∀ shorter : List Char, shorter.length < (first :: text).length →
      Settled system shorter)
    (noBest : bestOf ((writtenAt system (first :: text)).filterMap fun written =>
      written.step.choice? (choices system text)) = none)
    (cut : List (WrittenTerm system)) : ¬IsCut system (first :: text) cut := by
  intro isCut
  rcases isCut.exists_text_ne_nil (by simp) with
    ⟨written, rest, tail, begins, characters, tailCut, _⟩
  rcases (settled rest (begins.length_lt characters)).exists_leadTo_of_isCut tailCut with
    ⟨best, solved⟩
  have noChoice := List.filterMap_eq_nil_iff.mp (eq_nil_of_bestOf_eq_none noBest) written
    (mem_writtenAt.mpr ⟨rest, begins⟩)
  rw [choice?_of_begins begins characters, solved.count] at noChoice
  cases noChoice

/-- What is chosen begins the best cut. -/
theorem exists_leadTo_of_bestOf_eq_some {first : Char} {text : List Char} {best : Choice}
    (settled : ∀ shorter : List Char, shorter.length < (first :: text).length →
      Settled system shorter)
    (chosen : bestOf ((writtenAt system (first :: text)).filterMap fun written =>
      written.step.choice? (choices system text)) = some best) :
    ∃ cut, LeadTo system (first :: text) cut := by
  rcases exists_written_of_bestOf chosen with
    ⟨written, rest, count, begins, characters, isCount, rfl, preferred⟩
  rcases (settled rest (begins.length_lt characters)).exists_leadTo_of_count isCount with
    ⟨tail, solved, rfl⟩
  refine ⟨written :: tail, ?_, ?_, ?_⟩
  · refine .cons (by simp) begins solved.best ?_ ?_
    · intro shorter cut isShorter isCut
      rcases (settled shorter isShorter).exists_leadTo_of_isCut isCut with ⟨best, shorterSolved⟩
      exact ⟨best, shorterSolved.best⟩
    · intro other otherRest otherTail otherBegins otherCharacters otherBest
      rcases (settled otherRest (otherBegins.length_lt otherCharacters)).exists_leadTo_of_isCut
        otherBest.isCut with ⟨best, otherSolved⟩
      have sameBest := otherSolved.best.unique otherBest
      subst sameBest
      exact preferred other otherRest _ otherBegins otherCharacters otherSolved.count
  · rw [choices_cons, chosen, List.length_cons]
    rfl
  · rw [choices_cons, chosen, follow]
    simp only [WrittenTerm.step, drop_choices_of_begins begins characters, solved.terms,
      Option.map_some, List.map_cons]

/-- One more character at the front keeps the choices right. -/
theorem settled_cons {first : Char} {text : List Char}
    (settled : ∀ shorter : List Char, shorter.length < (first :: text).length →
      Settled system shorter) : Settled system (first :: text) := by
  cases chosen : bestOf ((writtenAt system (first :: text)).filterMap fun written =>
      written.step.choice? (choices system text)) with
  | none =>
      refine .inr ⟨no_cut_of_bestOf_eq_none settled chosen, ?_, ?_⟩
      · rw [choices_cons, chosen]
        rfl
      · rw [choices_cons, chosen, follow]
  | some best => exact .inl (exists_leadTo_of_bestOf_eq_some settled chosen)

/-- The choices of every run are right. -/
theorem settled (system : UnitSystem) (run : List Char) : Settled system run := by
  induction length : run.length using Nat.strongRecOn generalizing run with
  | ind length ih =>
      subst length
      cases run with
      | nil => exact settled_nil
      | cons first text => exact settled_cons fun shorter isShorter => ih _ isShorter shorter rfl

theorem segment?_of_isBestCut {run : List Char} {cut : List (WrittenTerm system)}
    (best : IsBestCut system run cut) :
    system.segment? run = some (cut.map WrittenTerm.term) := by
  rcases (settled system run).exists_leadTo_of_isCut best.isCut with ⟨other, solved⟩
  rw [solved.best.unique best]
  exact solved.terms

theorem segment?_eq_none_iff {run : List Char} :
    system.segment? run = none ↔ ∀ cut, ¬IsCut system run cut := by
  rcases settled system run with ⟨cut, solved⟩ | ⟨noCut, _, noTerms⟩
  · have found : system.segment? run = some (cut.map WrittenTerm.term) := solved.terms
    simp only [found, reduceCtorEq, false_iff, not_forall, not_not]
    exact ⟨cut, solved.best.isCut⟩
  · exact ⟨fun _ => noCut, fun _ => noTerms⟩

theorem exists_isBestCut_of_segment? {run : List Char} {terms : List Term}
    (found : system.segment? run = some terms) :
    ∃ cut, IsBestCut system run cut ∧ cut.map WrittenTerm.term = terms := by
  rcases settled system run with ⟨cut, solved⟩ | ⟨_, _, noTerms⟩
  · refine ⟨cut, solved.best, ?_⟩
    rw [UnitSystem.segment?, solved.terms, Option.some.injEq] at found
    exact found
  · rw [UnitSystem.segment?, noTerms] at found
    cases found

/-- Segmentation fails just where a run has no cut, and otherwise gives the terms of its best
cut. -/
theorem segment?_finds_best_cut (system : UnitSystem) (run : List Char) :
    (system.segment? run = none ↔ ∀ cut, ¬IsCut system run cut) ∧
      ∀ terms, system.segment? run = some terms ↔
        ∃ cut, IsBestCut system run cut ∧ cut.map WrittenTerm.term = terms := by
  refine ⟨segment?_eq_none_iff, fun terms => ⟨exists_isBestCut_of_segment?, ?_⟩⟩
  rintro ⟨cut, best, rfl⟩
  exact segment?_of_isBestCut best

end Metrology.Segmentation

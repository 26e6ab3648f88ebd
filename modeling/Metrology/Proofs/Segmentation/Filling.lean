import Metrology.Proofs.Segmentation.Search

/-!
# The search by byte offsets is safe

The entries of the table are the choices that `segment?` makes from the suffixes of the run: each
entry is the choice for the suffix that begins at its offset, and an offset within a character has
none. This is the invariant `Filled`, from the end of the run to its beginning. Together with
`Linked` it says how the terms are read off. Every hop goes over a byte at least, so the hops are at
most as many as the bytes, and only the first entry can be missing.
-/

namespace Metrology.Segmentation

open String (utf8Len)
open Text (IsBoundary cut?)

/-- The hop of a choice, with the number of terms that the choice counts. -/
def Choice.hop (start : Nat) (rest : List Char) (choice : Choice) : Hop :=
  ⟨choice.step.term, (choice.step.hop start rest).next, choice.count⟩

/-- The entry for an offset that the choices for the suffix from there on give. -/
def chosenAt (system : UnitSystem) (run : List Char) (offset : Nat) : Option Hop :=
  match cut? run offset with
  | some (_, rest) => (choices system rest).head?.join.map (Choice.hop offset rest)
  | none => none

/-- A table that has the chosen entries from an offset on. -/
structure Filled (system : UnitSystem) (run : List Char) (start : Nat) (table : Table) : Prop where
  length : table.length = utf8Len run + 1
  chosen : ∀ offset, start ≤ offset → offset ≤ utf8Len run →
    table[offset]? = some (chosenAt system run offset)

variable {system : UnitSystem} {run : List Char} {table : Table} {start : Nat}

theorem chosenAt_utf8Len (system : UnitSystem) (before rest : List Char) :
    chosenAt system (before ++ rest) (utf8Len before) =
      (choices system rest).head?.join.map (Choice.hop (utf8Len before) rest) := by
  rw [chosenAt, Text.cut?_utf8Len]

theorem countOf?_eq_of_ne_nil {rest : List Char} (nonempty : rest ≠ []) :
    countOf? (choices system rest) = (choices system rest).head?.join.map Choice.count := by
  cases rest with
  | nil => exact False.elim (nonempty rfl)
  | cons first text =>
      rw [choices]
      rfl

namespace Filled

variable {before rest : List Char} {step : Step}

/-- The terms of a suffix are counted as its choices count them. -/
theorem countAt_eq (filled : Filled system (before ++ rest) start table)
    (notBefore : start ≤ utf8Len before) :
    countAt (utf8Len (before ++ rest)) table (utf8Len before) =
      pure (countOf? (choices system rest)) := by
  rw [String.utf8Len_append, countAt]
  by_cases isEmpty : rest = []
  · rw [isEmpty, if_pos (by simp), choices]
    rfl
  · have positive : utf8Len rest ≠ 0 := by simpa using isEmpty
    have entry := filled.chosen (utf8Len before) notBefore
      (by rw [String.utf8Len_append]; omega)
    rw [if_neg (by omega), entryAt, entry, chosenAt_utf8Len, countOf?_eq_of_ne_nil isEmpty]
    change (pure (Option.map _ (Option.map _ _)) : Except Breach _) = _
    rw [Option.map_map]
    rfl

theorem set (filled : Filled system run (start + 1) table) (entry : Option Hop) :
    Filled system run (start + 1) (table.set start entry) := by
  refine ⟨by rw [List.length_set, filled.length], fun offset after inside => ?_⟩
  rw [List.getElem?_set_ne (by omega)]
  exact filled.chosen offset after inside

theorem entryAt_set (filled : Filled system run (start + 1) table) (inside : start ≤ utf8Len run)
    (entry : Option Hop) : entryAt (table.set start entry) start = pure entry := by
  rw [entryAt, List.getElem?_set_self (by rw [filled.length]; omega)]
  rfl

/-- A step that takes no character comes back to its own entry and does not replace it. -/
theorem consider_of_width_eq_zero
    (filled : Filled system (before ++ rest) (utf8Len before + 1) table) (nonempty : rest ≠ [])
    (noWidth : step.width = 0) (entry : Option Hop) :
    consider (utf8Len (before ++ rest)) (utf8Len before) (table.set (utf8Len before) entry)
        (step.hop (utf8Len before) rest) =
      pure (table.set (utf8Len before) entry) := by
  have positive : utf8Len rest ≠ 0 := by simpa using nonempty
  have size := String.utf8Len_append before rest
  have comesBack : (step.hop (utf8Len before) rest).next = utf8Len before := by
    rw [Step.hop, noWidth]
    rfl
  rw [consider, comesBack, countAt, if_neg (by omega), filled.entryAt_set (by omega)]
  cases entry with
  | none => rfl
  | some current =>
      simp only [pure_bind, Option.map_some]
      rw [not_beats_of_count_lt (Nat.lt_succ_self _)]
      rfl

/-- A step with characters leads to the suffix after them. -/
theorem countAt_next (filled : Filled system (before ++ rest) (utf8Len before + 1) table)
    (nonempty : rest ≠ []) (hasWidth : step.width ≠ 0) :
    countAt (utf8Len (before ++ rest)) table (step.hop (utf8Len before) rest).next =
      pure (countOf? (choices system (rest.drop step.width))) := by
  have isNext : (step.hop (utf8Len before) rest).next =
      utf8Len (before ++ rest.take step.width) := by
    rw [Step.hop, String.utf8Len_append]
  have positive : utf8Len (rest.take step.width) ≠ 0 := by
    simpa using And.intro hasWidth nonempty
  have isRun : before ++ rest = before ++ rest.take step.width ++ rest.drop step.width := by
    rw [List.append_assoc, List.take_append_drop]
  rw [isNext]
  rw [isRun] at filled ⊢
  refine filled.countAt_eq ?_
  rw [String.utf8Len_append]
  omega

variable {first : Char} {text : List Char}

theorem choice?_of_width (first : Char) (hasWidth : step.width ≠ 0) :
    step.choice? (choices system text) =
      (countOf? (choices system ((first :: text).drop step.width))).map
        fun count => ⟨step, count + 1⟩ := by
  rcases step with ⟨term, width⟩
  cases width with
  | zero => exact False.elim (hasWidth rfl)
  | succ width =>
      rw [List.drop_succ_cons, ← drop_choices]
      rfl

/-- Considering a hop is choosing between its choice and the best one so far. -/
theorem consider_hop
    (filled : Filled system (before ++ first :: text) (utf8Len before + 1) table)
    (candidates : List Choice) (step : Step) :
    let hop := Choice.hop (utf8Len before) (first :: text)
    consider (utf8Len (before ++ first :: text)) (utf8Len before)
        (table.set (utf8Len before) ((bestOf candidates).map hop))
        (step.hop (utf8Len before) (first :: text)) =
      pure (table.set (utf8Len before)
        ((bestOf (candidates ++ (step.choice? (choices system text)).toList)).map hop)) := by
  intro hop
  by_cases noWidth : step.width = 0
  · have noChoice : step.choice? (choices system text) = none := by rw [Step.choice?, noWidth]
    rw [filled.consider_of_width_eq_zero (by simp) noWidth, noChoice, Option.toList_none,
      List.append_nil]
  · have inside : utf8Len before ≤ utf8Len (before ++ first :: text) := by
      rw [String.utf8Len_append]
      omega
    rw [choice?_of_width first noWidth, consider,
      (filled.set _).countAt_next (by simp) noWidth, pure_bind]
    cases countOf? (choices system ((first :: text).drop step.width)) with
    | none => rw [Option.map_none, Option.toList_none, List.append_nil]
    | some count =>
        rw [Option.map_some, Option.toList_some, bestOf_append_singleton]
        simp only [filled.entryAt_set inside, pure_bind]
        cases bestOf candidates with
        | none => simp only [Option.map_none, List.set_set, Option.map_some]; rfl
        | some current =>
            simp only [Option.map_some]
            change (if Choice.beats ⟨step, count + 1⟩ current then _ else _) = _
            split
            · rw [List.set_set]
              rfl
            · rfl

/-- All hops from an offset leave the best choice there. -/
theorem foldlM_consider
    (filled : Filled system (before ++ first :: text) (utf8Len before + 1) table)
    (blank : table[utf8Len before]? = some none) (found : List Step) :
    (found.map (Step.hop (utf8Len before) (first :: text))).foldlM
        (consider (utf8Len (before ++ first :: text)) (utf8Len before)) table =
      pure (table.set (utf8Len before)
        ((bestOf (found.filterMap (Step.choice? (choices system text)))).map
          (Choice.hop (utf8Len before) (first :: text)))) := by
  induction found using List.reverseRecOn with
  | nil =>
      have unchanged : table.set (utf8Len before) none = table := by
        refine List.ext_getElem? fun offset => ?_
        by_cases same : utf8Len before = offset
        · subst same
          rw [List.getElem?_set_self (List.getElem?_eq_some_iff.mp blank).1, blank]
        · rw [List.getElem?_set_ne same]
      change pure table = pure (table.set _ none)
      rw [unchanged]
  | append_singleton found step ih =>
      have lastChoice : [step].filterMap (Step.choice? (choices system text)) =
          (step.choice? (choices system text)).toList := by
        cases isChoice : step.choice? (choices system text) <;> simp [isChoice]
      rw [List.map_append, List.foldlM_append, ih, pure_bind, List.map_singleton,
        List.foldlM_cons, filled.consider_hop, pure_bind, List.foldlM_nil, List.filterMap_append,
        lastChoice]

/-- A visit fills one entry more. -/
theorem visit (filled : Filled system run (start + 1) table) (below : start < utf8Len run)
    (blank : table[start]? = some none) :
    ∃ later, Segmentation.visit system run table start = pure later ∧
      Filled system run start later ∧ ∀ offset < start, later[offset]? = table[offset]? := by
  have extend : ∀ later : Table, later.length = table.length →
      (∀ offset, start ≠ offset → later[offset]? = table[offset]?) →
      later[start]? = some (chosenAt system run start) → Filled system run start later := by
    intro later sameLength same isChosen
    refine ⟨sameLength.trans filled.length, fun offset after inside => ?_⟩
    by_cases isStart : start = offset
    · rw [← isStart, isChosen]
    · rw [same offset isStart]
      exact filled.chosen offset (by omega) inside
  by_cases boundary : IsBoundary run start
  · rcases Text.isBoundary_iff.mp boundary with ⟨before, rest, rfl, rfl⟩
    cases rest with
    | nil => simp at below
    | cons first text =>
        have inTable : utf8Len before < table.length := by
          rw [filled.length]
          omega
        rw [Segmentation.visit, if_pos boundary, hopsAt_utf8Len, pure_bind,
          filled.foldlM_consider blank]
        refine ⟨_, rfl, extend _ (by simp) (fun offset differs => List.getElem?_set_ne differs) ?_,
          fun offset less => List.getElem?_set_ne (by omega)⟩
        rw [List.getElem?_set_self inTable, chosenAt_utf8Len, choices]
        rfl
  · have noChoice : chosenAt system run start = none := by
      rw [chosenAt]
      cases isCut : cut? run start with
      | none => rfl
      | some parts =>
          exact False.elim (boundary (Text.isBoundary_iff_exists_cut?.mpr ⟨_, _, isCut⟩))
    rw [Segmentation.visit, if_neg boundary]
    exact ⟨table, rfl, extend _ rfl (fun _ _ => rfl) (by rw [blank, noChoice]), fun _ _ => rfl⟩

theorem replicate (system : UnitSystem) (run : List Char) :
    Filled system run (utf8Len run) (List.replicate (utf8Len run + 1) none) := by
  refine ⟨List.length_replicate, fun offset after inside => ?_⟩
  obtain rfl : offset = utf8Len run := by omega
  have atEnd := chosenAt_utf8Len system run []
  rw [List.append_nil] at atEnd
  rw [List.getElem?_replicate, if_pos (by omega), atEnd, choices]
  rfl

end Filled

/-- The visits to the offsets before one meet no breach and fill the table that is filled from there
on. -/
theorem foldlM_visit (inside : start ≤ utf8Len run) (linked : Linked run table)
    (filled : Filled system run start table)
    (blank : ∀ offset < start, table[offset]? = some none) :
    ∃ later, (List.range start).reverse.foldlM (visit system run) table = pure later ∧
      Linked run later ∧ Filled system run 0 later := by
  induction start generalizing table with
  | zero => exact ⟨table, rfl, linked, filled⟩
  | succ start ih =>
      rcases filled.visit inside (blank start (Nat.lt_succ_self _)) with
        ⟨later, visited, laterFilled, same⟩
      have reached : ∃ later, visit system run table start = pure later ∧ Linked run later :=
        linked.visit inside
      rcases reached with ⟨other, visitedToo, laterLinked⟩
      obtain rfl : later = other := Except.ok.inj (visited.symm.trans visitedToo)
      rw [List.range_succ, List.reverse_append, List.reverse_singleton, List.singleton_append,
        List.foldlM_cons, visited, pure_bind]
      refine ih (by omega) laterLinked laterFilled fun offset less => ?_
      rw [same offset less]
      exact blank offset (by omega)

/-- The search meets no breach while it fills the table, which becomes linked and filled. -/
theorem exists_fill (system : UnitSystem) (run : List Char) :
    ∃ table, fill system run = pure table ∧ Linked run table ∧ Filled system run 0 table := by
  refine foldlM_visit (Nat.le_refl _) (Linked.replicate run) (Filled.replicate system run) ?_
  intro offset less
  rw [List.getElem?_replicate, if_pos (by omega)]

section

variable {before rest text : List Char} {first : Char}

/-- Where an entry leads, the run can be cut. -/
theorem Filled.exists_countOf? (filled : Filled system (before ++ rest) 0 table)
    (leads : utf8Len before = utf8Len (before ++ rest) ∨
      ∃ next, Holds table (utf8Len before) next) :
    ∃ count, countOf? (choices system rest) = some count := by
  have counted := filled.countAt_eq (Nat.zero_le _)
  rw [countAt] at counted
  split at counted
  · exact ⟨0, (Except.ok.inj counted).symm⟩
  · rename_i notAtEnd
    rcases leads with atEnd | ⟨next, isNext⟩
    · exact False.elim (notAtEnd atEnd)
    · rw [entryAt, isNext] at counted
      exact ⟨next.count, (Except.ok.inj counted).symm⟩

/-- Where a suffix can be cut, the table holds the hop of its choice. -/
theorem Filled.exists_holds (filled : Filled system (before ++ first :: text) 0 table) {count : Nat}
    (counted : countOf? (choices system (first :: text)) = some count) :
    ∃ choice, choices system (first :: text) = some choice :: choices system text ∧
      Holds table (utf8Len before) (choice.hop (utf8Len before) (first :: text)) := by
  have inside := (Text.isBoundary_utf8Len before (first :: text)).le
  have entry := filled.chosen (utf8Len before) (Nat.zero_le _) inside
  rw [chosenAt_utf8Len] at entry
  rw [choices] at counted entry ⊢
  rcases Option.map_eq_some_iff.mp counted with ⟨choice, isChoice, _⟩
  rw [isChoice] at entry ⊢
  exact ⟨choice, rfl, entry⟩

/-- The hop of a choice leads behind its term. -/
theorem Choice.next_hop (choice : Choice) (before rest : List Char) :
    (choice.hop (utf8Len before) rest).next =
      utf8Len (before ++ rest.take choice.step.width) := by
  rw [String.utf8Len_append]
  rfl

theorem follow_of_width {choice : Choice} (hasWidth : choice.step.width ≠ 0) :
    follow (some choice :: choices system text) =
      (follow (choices system ((first :: text).drop choice.step.width))).map
        (choice.step.term :: ·) := by
  obtain ⟨width, isWidth⟩ := Nat.exists_eq_succ_of_ne_zero hasWidth
  rw [follow, drop_choices, isWidth, Nat.succ_eq_add_one, Nat.add_sub_cancel, List.drop_succ_cons]

theorem readOff_end (size hops : Nat) : readOff size table hops size = pure (.terms []) := by
  cases hops <;> rw [readOff, if_neg (Nat.lt_irrefl size)]

theorem readOff_hop {size offset hops : Nat} {hop : Hop} {terms : List Term}
    (below : offset < size) (holds : Holds table offset hop)
    (isRead : readOff size table hops hop.next = pure (.terms terms)) :
    readOff size table (hops + 1) offset = pure (.terms (hop.term :: terms)) := by
  rw [readOff, if_pos below, entryAt, holds]
  change (do return Ending.after hop.term (← readOff size table hops hop.next)) = _
  rw [isRead]
  rfl

/-- From a suffix that can be cut, the table leads over the first of its terms, and what follows can
be cut too. -/
theorem exists_hop (linked : Linked (before ++ first :: text) table)
    (filled : Filled system (before ++ first :: text) 0 table) {count : Nat}
    (counted : countOf? (choices system (first :: text)) = some count) :
    ∃ choice : Choice,
      Holds table (utf8Len before) (choice.hop (utf8Len before) (first :: text)) ∧
      follow (choices system (first :: text)) =
        (follow (choices system ((first :: text).drop choice.step.width))).map
          (choice.step.term :: ·) ∧
      ∃ later, countOf? (choices system ((first :: text).drop choice.step.width)) = some later := by
  rcases filled.exists_holds counted with ⟨choice, isChoice, holds⟩
  have forward := linked.forward _ _ holds
  have leads := linked.leads _ _ holds
  have hasWidth : choice.step.width ≠ 0 := by
    intro noWidth
    simp [Choice.hop, Step.hop, noWidth] at forward
  refine ⟨choice, holds, by rw [isChoice, follow_of_width hasWidth], ?_⟩
  -- The run is divided anew, behind the term that the hop goes over.
  have isRun : before ++ first :: text = before ++ (first :: text).take choice.step.width ++
      (first :: text).drop choice.step.width := by
    rw [List.append_assoc, List.take_append_drop]
  rw [choice.next_hop before, isRun] at leads
  exact (isRun ▸ filled).exists_countOf? leads

/-- From a suffix that can be cut, the hops lead to the end. They are at most as many as the bytes
of the suffix, since each goes over at least one. -/
theorem readOff_of_countOf? (linked : Linked run table) (filled : Filled system run 0 table)
    {hops count : Nat} (isRun : run = before ++ rest) (enough : utf8Len rest ≤ hops)
    (counted : countOf? (choices system rest) = some count) :
    ∃ terms, follow (choices system rest) = some terms ∧
      readOff (utf8Len run) table hops (utf8Len before) = pure (.terms terms) := by
  induction hops generalizing before rest count with
  | zero =>
      obtain rfl : rest = [] := by simpa using enough
      rw [List.append_nil] at isRun
      exact ⟨[], by rw [choices, follow], by rw [isRun, readOff_end]⟩
  | succ hops ih =>
      cases rest with
      | nil =>
          rw [List.append_nil] at isRun
          exact ⟨[], by rw [choices, follow], by rw [isRun, readOff_end]⟩
      | cons first text =>
          subst isRun
          rcases exists_hop linked filled counted with ⟨choice, holds, followed, later, isLater⟩
          have isNext := choice.next_hop before (first :: text)
          have forward := linked.forward _ _ holds
          have inside := (linked.boundary _ _ holds).2.le
          have size := String.utf8Len_append before (first :: text)
          have fewer : utf8Len ((first :: text).drop choice.step.width) ≤ hops := by
            have parts := String.utf8Len_append ((first :: text).take choice.step.width)
              ((first :: text).drop choice.step.width)
            rw [List.take_append_drop] at parts
            rw [isNext, String.utf8Len_append] at forward
            omega
          have isRunAfter : before ++ first :: text =
              before ++ (first :: text).take choice.step.width ++
                (first :: text).drop choice.step.width := by
            rw [List.append_assoc, List.take_append_drop]
          rcases ih isRunAfter fewer isLater with ⟨terms, othersFollowed, isRead⟩
          refine ⟨choice.step.term :: terms, by rw [followed, othersFollowed, Option.map_some], ?_⟩
          exact readOff_hop (by omega) holds (isNext ▸ isRead)

end

/-- Without an entry for its beginning a run has no terms, and nothing is read off. -/
theorem readOff_of_no_count {first : Char} {text : List Char} {hops : Nat}
    (filled : Filled system (first :: text) 0 table)
    (notCounted : countOf? (choices system (first :: text)) = none) :
    follow (choices system (first :: text)) = none ∧
      readOff (utf8Len (first :: text)) table hops 0 = pure (.stuck 0) := by
  have entry := filled.chosen 0 (Nat.le_refl _) (Nat.zero_le _)
  have isChosen := chosenAt_utf8Len system [] (first :: text)
  rw [List.nil_append, String.utf8Len_nil] at isChosen
  rw [isChosen, choices] at entry
  rw [choices, countOf?, Option.map_eq_none_iff] at notCounted
  rw [notCounted] at entry
  have positive : 0 < utf8Len (first :: text) := by
    have := first.utf8Size_pos
    rw [String.utf8Len_cons]
    omega
  refine ⟨by rw [choices, notCounted, follow], ?_⟩
  rw [readOff, if_pos positive, entryAt, entry]
  rfl

/-- The search by offsets reads off the terms of the best cut, or finds at once that there is
none. -/
theorem search_eq (system : UnitSystem) (run : List Char) :
    search system run = pure (match system.segment? run with
      | some terms => .terms terms
      | none => .stuck 0) := by
  rcases exists_fill system run with ⟨table, isFilled, linked, filled⟩
  rw [search, isFilled, pure_bind, UnitSystem.segment?]
  cases isCount : countOf? (choices system run) with
  | some count =>
      have isRun : run = [] ++ run := (List.nil_append run).symm
      rcases readOff_of_countOf? linked filled isRun (Nat.le_refl _) isCount with
        ⟨terms, followed, isRead⟩
      rw [followed]
      exact isRead
  | none =>
      cases run with
      | nil => simp [choices, countOf?] at isCount
      | cons first text =>
          rcases readOff_of_no_count filled isCount with ⟨noTerms, isRead⟩
          rw [noTerms]
          exact isRead

/-- The search by byte offsets is safe for every unit system and every run. At a boundary it finds
the hops without a breach. They lead to boundaries within the run and not back, and to consider one
of them meets no breach and keeps the table linked, as it is at first and when it is filled. So the
terms are read off with at most one hop for every byte, and they are those of `segment?`; where the
run has none, no hop is made at all. -/
theorem search_is_safe (system : UnitSystem) (run : List Char) :
    (∀ start, IsBoundary run start → ∃ hops, hopsAt system run start = .ok hops ∧
      ∀ hop ∈ hops, start ≤ hop.next ∧ hop.next ≤ utf8Len run ∧ IsBoundary run hop.next ∧
        (start < utf8Len run → ∀ table, Linked run table →
          ∃ later, consider (utf8Len run) start table hop = .ok later ∧ Linked run later)) ∧
    Linked run (List.replicate (utf8Len run + 1) none) ∧
    (∃ table, fill system run = .ok table ∧ Linked run table) ∧
    search system run = .ok (match system.segment? run with
      | some terms => .terms terms
      | none => .stuck 0) := by
  refine ⟨?_, Linked.replicate run, ?_, search_eq system run⟩
  · intro start boundary
    rcases hopsAt_of_isBoundary boundary with ⟨hops, isHops, ahead⟩
    refine ⟨hops, isHops, fun hop member => ?_⟩
    have ⟨notBack, nextBoundary⟩ := ahead hop member
    exact ⟨notBack, nextBoundary.le, nextBoundary, fun below table linked =>
      linked.consider boundary below nextBoundary notBack⟩
  · rcases exists_fill system run with ⟨table, isFilled, linked, _⟩
    exact ⟨table, isFilled, linked⟩

end Metrology.Segmentation

import Metrology.Proofs.Segmentation.Hop

/-!
# The search by byte offsets

The table of the search has an entry for every offset up to the end of the run. It is filled from
the right: at every boundary each hop is considered in turn, and the entry keeps the best. Then the
terms are read off, hop by hop from the first entry on; nothing but the entries themselves bounds
how long this takes.

A unit whose abbreviation is empty makes hops that lead nowhere. Such a hop finds the entry it would
replace: either there is none yet, and then the hop does not lead to the end, or the hop would take
one term more than that entry and does not beat it. So every entry leads forward and to another
entry, which is the invariant `Linked`.
-/

namespace Metrology.Segmentation

open String (utf8Len)
open Text (IsBoundary)

/-- For every offset of a run, the best first term from there on, if one was found. -/
abbrev Table := List (Option Hop)

/-- Whether one hop is strictly better than another from the same offset. -/
def Hop.beats (left right : Hop) : Bool :=
  Choice.beats ⟨⟨left.term, left.next⟩, left.count⟩ ⟨⟨right.term, right.next⟩, right.count⟩

def entryAt (table : Table) (offset : Nat) : Except Breach (Option Hop) :=
  match table[offset]? with
  | some entry => .ok entry
  | none => .error (.entry offset)

/-- The number of terms from an offset on, if the run can be cut from there. -/
def countAt (size : Nat) (table : Table) (offset : Nat) : Except Breach (Option Nat) :=
  if offset = size then return some 0 else return (← entryAt table offset).map Hop.count

/-- The table after one more hop from an offset. -/
def consider (size start : Nat) (table : Table) (hop : Hop) : Except Breach Table := do
  match ← countAt size table hop.next with
  | none => return table
  | some count =>
      let candidate : Hop := ⟨hop.term, hop.next, count + 1⟩
      match ← entryAt table start with
      | none => return table.set start (some candidate)
      | some current =>
          if candidate.beats current then return table.set start (some candidate) else return table

/-- The table after all hops from an offset. Offsets within a character are passed over. -/
def visit (system : UnitSystem) (run : List Char) (table : Table) (start : Nat) :
    Except Breach Table := do
  if IsBoundary run start then
    (← hopsAt system run start).foldlM (consider (utf8Len run) start) table
  else
    return table

/-- The table of a run, from its end to its beginning. -/
def fill (system : UnitSystem) (run : List Char) : Except Breach Table :=
  (List.range (utf8Len run)).reverse.foldlM (visit system run)
    (List.replicate (utf8Len run + 1) none)

/-- How reading off the terms of a table ends. -/
inductive Ending where
  | terms (terms : List Term)
  /-- Without terms, at an offset that has no entry. -/
  | stuck (offset : Nat)
  /-- Not at all within the hops allowed. -/
  | unfinished

def Ending.after (term : Term) : Ending → Ending
  | terms rest => terms (term :: rest)
  | ending => ending

/-- Reads off the terms from an offset on, with at most so many hops. -/
def readOff (size : Nat) (table : Table) (hops offset : Nat) : Except Breach Ending := do
  if offset < size then
    match ← entryAt table offset with
    | none => return .stuck offset
    | some hop =>
        match hops with
        | 0 => return .unfinished
        | hops + 1 => return .after hop.term (← readOff size table hops hop.next)
  else
    return .terms []

/-- The terms of a run by byte offsets, with at most one hop for every byte. -/
def search (system : UnitSystem) (run : List Char) : Except Breach Ending := do
  readOff (utf8Len run) (← fill system run) (utf8Len run) 0

/-- Whether a hop is the entry of a table for an offset. -/
abbrev Holds (table : Table) (offset : Nat) (hop : Hop) : Prop :=
  table[offset]? = some (some hop)

/-- Every entry of a table leads forward to a boundary, which is the end or has an entry too. -/
structure Linked (run : List Char) (table : Table) : Prop where
  length : table.length = utf8Len run + 1
  boundary : ∀ start hop, Holds table start hop → IsBoundary run start ∧ IsBoundary run hop.next
  forward : ∀ start hop, Holds table start hop → start < hop.next
  leads : ∀ start hop, Holds table start hop →
    hop.next = utf8Len run ∨ ∃ next, Holds table hop.next next

variable {system : UnitSystem} {run : List Char} {table : Table} {start : Nat}

theorem not_beats_of_count_lt {left right : Hop} (more : right.count < left.count) :
    left.beats right = false := by
  rw [← Bool.not_eq_true, Hop.beats, Choice.beats_iff]
  dsimp only
  omega

namespace Linked

variable {hop : Hop}

theorem entryAt_of_le (linked : Linked run table) (inside : start ≤ utf8Len run) :
    ∃ entry, table[start]? = some entry ∧ entryAt table start = pure entry := by
  have inTable : start < table.length := by
    rw [linked.length]
    omega
  have isEntry := List.getElem?_eq_getElem inTable
  exact ⟨_, isEntry, by rw [entryAt, isEntry]; rfl⟩

/-- A table stays linked when it gets an entry that leads forward to the end or to an entry. -/
theorem set (linked : Linked run table) (boundary : IsBoundary run start)
    (nextBoundary : IsBoundary run hop.next) (forward : start < hop.next)
    (leads : hop.next = utf8Len run ∨ ∃ next, Holds table hop.next next) :
    Linked run (table.set start (some hop)) := by
  have inTable : start < table.length := by
    have := boundary.le
    rw [linked.length]
    omega
  have entries : ∀ offset entry, Holds (table.set start (some hop)) offset entry →
      offset = start ∧ entry = hop ∨ Holds table offset entry := by
    intro offset entry isEntry
    by_cases same : start = offset
    · subst same
      rw [Holds, List.getElem?_set_self inTable] at isEntry
      simp only [Option.some.injEq] at isEntry
      exact .inl ⟨rfl, isEntry.symm⟩
    · rw [Holds, List.getElem?_set_ne same] at isEntry
      exact .inr isEntry
  have kept : ∀ offset, (∃ next, Holds table offset next) →
      ∃ next, Holds (table.set start (some hop)) offset next := by
    rintro offset ⟨next, isNext⟩
    by_cases same : start = offset
    · subst same
      exact ⟨hop, List.getElem?_set_self inTable⟩
    · exact ⟨next, by rwa [Holds, List.getElem?_set_ne same]⟩
  refine ⟨by rw [List.length_set, linked.length], ?_, ?_, ?_⟩
  · intro offset entry isEntry
    rcases entries offset entry isEntry with ⟨rfl, rfl⟩ | old
    · exact ⟨boundary, nextBoundary⟩
    · exact linked.boundary offset entry old
  · intro offset entry isEntry
    rcases entries offset entry isEntry with ⟨rfl, rfl⟩ | old
    · exact forward
    · exact linked.forward offset entry old
  · intro offset entry isEntry
    rcases entries offset entry isEntry with ⟨rfl, rfl⟩ | old
    · exact leads.imp_right (kept _)
    · exact (linked.leads offset entry old).imp_right (kept _)

theorem replicate (run : List Char) : Linked run (List.replicate (utf8Len run + 1) none) := by
  have noEntry : ∀ start hop, ¬Holds (List.replicate (utf8Len run + 1) none) start hop := by
    intro start hop isEntry
    have member := List.mem_of_getElem? isEntry
    simp at member
  refine ⟨List.length_replicate, ?_, ?_, ?_⟩
  all_goals exact fun start hop isEntry => False.elim (noEntry start hop isEntry)

/-- The terms from a boundary on can be counted just at the end and where there is an entry. -/
theorem exists_countAt (linked : Linked run table) (boundary : IsBoundary run start) :
    ∃ count?, countAt (utf8Len run) table start = pure count? ∧ ∀ count, count? = some count →
      start = utf8Len run ∨ ∃ next, Holds table start next ∧ count = next.count := by
  by_cases atEnd : start = utf8Len run
  · exact ⟨some 0, by rw [countAt, if_pos atEnd], fun _ _ => .inl atEnd⟩
  · rcases linked.entryAt_of_le boundary.le with ⟨entry, isEntry, found⟩
    refine ⟨entry.map Hop.count, by rw [countAt, if_neg atEnd, found, pure_bind], ?_⟩
    intro count isCount
    rcases Option.map_eq_some_iff.mp isCount with ⟨next, rfl, rfl⟩
    exact .inr ⟨next, isEntry, rfl⟩

/-- To consider a hop meets no breach and keeps the table linked. -/
theorem consider (linked : Linked run table) (boundary : IsBoundary run start)
    (below : start < utf8Len run) (nextBoundary : IsBoundary run hop.next)
    (notBack : start ≤ hop.next) :
    ∃ later, Segmentation.consider (utf8Len run) start table hop = pure later ∧
      Linked run later := by
  rcases linked.exists_countAt nextBoundary with ⟨count?, counted, countOf⟩
  rcases linked.entryAt_of_le boundary.le with ⟨entry, isEntry, found⟩
  rw [Segmentation.consider, counted, pure_bind]
  cases count? with
  | none => exact ⟨table, rfl, linked⟩
  | some count =>
      have leads : hop.next = utf8Len run ∨ ∃ next, Holds table hop.next next :=
        (countOf count rfl).imp_right fun ⟨next, isNext, _⟩ => ⟨next, isNext⟩
      simp only [found, pure_bind]
      cases entry with
      | none =>
          have ahead : start < hop.next := by
            refine Nat.lt_of_le_of_ne notBack fun same => ?_
            rcases leads with atEnd | ⟨next, isNext⟩
            · omega
            · rw [← same, Holds, isEntry] at isNext
              cases isNext
          exact ⟨_, rfl, linked.set boundary nextBoundary ahead leads⟩
      | some current =>
          dsimp only
          split
          · rename_i beats
            have ahead : start < hop.next := by
              refine Nat.lt_of_le_of_ne notBack fun same => ?_
              rcases countOf count rfl with atEnd | ⟨next, isNext, rfl⟩
              · omega
              · rw [← same, Holds, isEntry, Option.some.injEq, Option.some.injEq] at isNext
                subst isNext
                rw [not_beats_of_count_lt (Nat.lt_succ_self _)] at beats
                cases beats
            exact ⟨_, rfl, linked.set boundary nextBoundary ahead leads⟩
          · exact ⟨table, rfl, linked⟩

theorem foldlM_consider (linked : Linked run table) (boundary : IsBoundary run start)
    (below : start < utf8Len run) {hops : List Hop}
    (ahead : ∀ hop ∈ hops, start ≤ hop.next ∧ IsBoundary run hop.next) :
    ∃ later, hops.foldlM (Segmentation.consider (utf8Len run) start) table = pure later ∧
      Linked run later := by
  induction hops generalizing table with
  | nil => exact ⟨table, rfl, linked⟩
  | cons hop hops ih =>
      have ⟨⟨notBack, nextBoundary⟩, others⟩ := List.forall_mem_cons.mp ahead
      rcases linked.consider boundary below nextBoundary notBack with ⟨later, considered, kept⟩
      rw [List.foldlM_cons, considered, pure_bind]
      exact ih kept others

theorem visit (linked : Linked run table) (below : start < utf8Len run) :
    ∃ later, Segmentation.visit system run table start = pure later ∧ Linked run later := by
  rw [Segmentation.visit]
  split
  · rename_i boundary
    rcases hopsAt_of_isBoundary boundary with ⟨hops, isHops, ahead⟩
    rw [isHops, pure_bind]
    exact linked.foldlM_consider boundary below ahead
  · exact ⟨table, rfl, linked⟩

end Linked

end Metrology.Segmentation

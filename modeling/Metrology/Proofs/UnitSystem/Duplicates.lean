import Metrology.Proofs.Segmentation.Optimality
import Metrology.UnitSystem.Literal

/-!
# Later definitions of an abbreviation

A list of units may define an abbreviation more than once. The look-up of an abbreviation finds the
first definition, and unit literals are read with the first one too, for a later one ties with it
wherever it fits and a tie is settled for what comes first. So both give the same without the later
definitions. The unit that results are shown in need not be the same: it is looked for by its
dimension among all definitions, the later ones included.
-/

namespace Metrology

/-- The units of a list without those whose abbreviation is defined before them. -/
def firstDefinitions : List UnitDefinition → List UnitDefinition
  | [] => []
  | definition :: later =>
      definition :: (firstDefinitions later).filter fun other =>
        other.abbreviation != definition.abbreviation

variable {units : List UnitDefinition} {prefixes : List MetricPrefix}
  {definition shown other : UnitDefinition}

/-- The first definition of an abbreviation is the same in both lists. -/
theorem find?_firstDefinitions (units : List UnitDefinition) (abbreviation : String) :
    (firstDefinitions units).find? (·.abbreviation == abbreviation) =
      units.find? (·.abbreviation == abbreviation) := by
  induction units with
  | nil => rfl
  | cons definition later ih =>
      cases isFirst : definition.abbreviation == abbreviation with
      | true => simp [firstDefinitions, isFirst]
      | false =>
          simp only [firstDefinitions, List.find?_cons, isFirst, List.find?_filter, ← ih]
          refine congrArg (List.find? · (firstDefinitions later)) (funext fun other => ?_)
          rw [beq_eq_false_iff_ne] at isFirst
          by_cases same : other.abbreviation = abbreviation
          · simp [same, isFirst.symm]
          · simp [same]

namespace Segmentation

/-- The best choice so far after one more candidate. -/
def improve (best : Option Choice) (candidate : Choice) : Option Choice :=
  match best with
  | none => some candidate
  | some current => if candidate.beats current then some candidate else some current

/-- Whether two choices differ in nothing that counts when choices are compared. -/
structure Choice.Ties (left right : Choice) : Prop where
  count : left.count = right.count
  abbreviationSize : left.abbreviationSize = right.abbreviationSize
  prefixCount : left.prefixCount = right.prefixCount

variable {best : Option Choice} {choice candidate : Choice}

/-- Whether a candidate comes too late: the best choice so far is not beaten by it. -/
def TooLate (best : Option Choice) (candidate : Choice) : Prop :=
  ∃ current, best = some current ∧ candidate.beats current = false

theorem improve_of_tooLate (late : TooLate best candidate) : improve best candidate = best := by
  rcases late with ⟨current, rfl, notBetter⟩
  simp [improve, notBetter]

theorem tooLate_improve (best : Option Choice) (candidate : Choice) :
    TooLate (improve best candidate) candidate := by
  have notBetter : candidate.beats candidate = false := by
    rw [← Bool.not_eq_true, Choice.beats_iff]
    omega
  cases best with
  | none => exact ⟨candidate, rfl, notBetter⟩
  | some current =>
      cases isBetter : candidate.beats current with
      | true => exact ⟨candidate, by simp [improve, isBetter], notBetter⟩
      | false => exact ⟨current, by simp [improve, isBetter], isBetter⟩

/-- What comes too late stays so, however the best choice improves. -/
theorem TooLate.improve (late : TooLate best choice) (candidate : Choice) :
    TooLate (improve best candidate) choice := by
  rcases late with ⟨current, rfl, notBetter⟩
  cases isBetter : candidate.beats current with
  | true =>
      refine ⟨candidate, by simp [Segmentation.improve, isBetter], ?_⟩
      by_contra stillBetter
      rw [Bool.not_eq_false] at stillBetter
      rw [Choice.beats_trans stillBetter isBetter] at notBetter
      cases notBetter
  | false => exact ⟨current, by simp [Segmentation.improve, isBetter], notBetter⟩

theorem TooLate.of_ties (late : TooLate best choice) (ties : candidate.Ties choice) :
    TooLate best candidate := by
  rcases late with ⟨current, rfl, notBetter⟩
  refine ⟨current, rfl, ?_⟩
  rw [← Bool.not_eq_true, Choice.beats_iff] at notBetter ⊢
  rwa [ties.count, ties.abbreviationSize, ties.prefixCount]

/-- Whether a way to make choices of units goes by their abbreviations: units with one abbreviation
give choices that tie, or none does. -/
def GoesByAbbreviation (choose : UnitDefinition → Option Choice) : Prop :=
  ∀ definition other, definition.abbreviation = other.abbreviation →
    Option.Rel Choice.Ties (choose definition) (choose other)

variable {choose : UnitDefinition → Option Choice}

/-- The best choice so far after one more unit has been tried. -/
def tryUnit (choose : UnitDefinition → Option Choice) (best : Option Choice)
    (unit : UnitDefinition) : Option Choice :=
  match choose unit with
  | some candidate => improve best candidate
  | none => best

theorem foldl_improve_filterMap (choose : UnitDefinition → Option Choice)
    (units : List UnitDefinition) (best : Option Choice) :
    (units.filterMap choose).foldl improve best = units.foldl (tryUnit choose) best := by
  induction units generalizing best with
  | nil => rfl
  | cons unit units ih =>
      rw [List.foldl_cons, ← ih, tryUnit]
      cases isChoice : choose unit with
      | none => rw [List.filterMap_cons_none isChoice]
      | some candidate => rw [List.filterMap_cons_some isChoice, List.foldl_cons]

/-- Whether trying a unit once more would come too late. -/
def Tried (choose : UnitDefinition → Option Choice) (best : Option Choice)
    (unit : UnitDefinition) : Prop :=
  ∀ choice ∈ choose unit, TooLate best choice

theorem tried_tryUnit (best : Option Choice) (unit : UnitDefinition) :
    Tried choose (tryUnit choose best unit) unit := by
  intro choice isChoice
  rw [Option.mem_def] at isChoice
  rw [tryUnit, isChoice]
  exact tooLate_improve best choice

theorem Tried.tryUnit (tried : Tried choose best definition) (unit : UnitDefinition) :
    Tried choose (tryUnit choose best unit) definition := by
  intro choice isChoice
  unfold Segmentation.tryUnit
  split
  · exact (tried choice isChoice).improve _
  · exact tried choice isChoice

/-- Another definition of an abbreviation that has been tried changes nothing. -/
theorem tryUnit_of_tried (byAbbreviation : GoesByAbbreviation choose)
    (tried : Tried choose best definition)
    (same : other.abbreviation = definition.abbreviation) :
    tryUnit choose best other = best := by
  have ties := byAbbreviation other definition same
  rw [Tried] at tried
  unfold tryUnit
  generalize choose definition = first at ties tried
  generalize choose other = another at ties ⊢
  cases ties with
  | none => rfl
  | some ties => exact improve_of_tooLate ((tried _ rfl).of_ties ties)

/-- Further definitions of an abbreviation come too late once one has been tried. -/
theorem foldl_tryUnit_filter (byAbbreviation : GoesByAbbreviation choose)
    (tried : Tried choose best definition) :
    (units.filter fun other => other.abbreviation != definition.abbreviation).foldl
        (tryUnit choose) best =
      units.foldl (tryUnit choose) best := by
  induction units generalizing best with
  | nil => rfl
  | cons other later ih =>
      by_cases same : other.abbreviation = definition.abbreviation
      · simp only [List.filter_cons, same, bne_self_eq_false, Bool.false_eq_true, if_false,
          List.foldl_cons, tryUnit_of_tried byAbbreviation tried same]
        exact ih tried
      · simp only [List.filter_cons, bne_iff_ne, ne_eq, same, not_false_eq_true, if_true,
          List.foldl_cons]
        exact ih (tried.tryUnit other)

/-- Later definitions of an abbreviation have no part in the choice of the best term. -/
theorem foldl_tryUnit_firstDefinitions (byAbbreviation : GoesByAbbreviation choose)
    (units : List UnitDefinition) (best : Option Choice) :
    (firstDefinitions units).foldl (tryUnit choose) best = units.foldl (tryUnit choose) best := by
  induction units generalizing best with
  | nil => rfl
  | cons definition later ih =>
      rw [firstDefinitions, List.foldl_cons, List.foldl_cons,
        foldl_tryUnit_filter byAbbreviation (tried_tryUnit best definition), ih]

/-- The step that a text begins with by a unit, if it begins with it. -/
def stepOf? (metricPrefix : Option MetricPrefix) (taken : Nat) (text : List Char)
    (unit : UnitDefinition) : Option Step := do
  let rest ← unit.abbreviation.toList.isPrefixOf? text
  let (exponent, digits) ← readExponent rest
  return ⟨⟨metricPrefix, unit, exponent⟩, taken + unit.abbreviation.length + digits⟩

/-- Steps that differ in nothing that counts give choices that tie, or none of them gives one. -/
theorem ties_choice? {left right : Step} (later : List (Option Choice))
    (width : left.width = right.width)
    (metricPrefix : left.term.metricPrefix = right.term.metricPrefix)
    (abbreviation : left.term.unit.abbreviation = right.term.unit.abbreviation) :
    Option.Rel Choice.Ties (left.choice? later) (right.choice? later) := by
  unfold Step.choice?
  rw [width]
  cases right.width with
  | zero => exact .none
  | succ width =>
      dsimp only
      cases countOf? (later.drop width) with
      | none => exact .none
      | some count =>
          exact .some ⟨rfl, by simp [Choice.abbreviationSize, abbreviation],
            by simp [Choice.prefixCount, metricPrefix]⟩

theorem goesByAbbreviation_stepOf? (later : List (Option Choice))
    (metricPrefix : Option MetricPrefix) (taken : Nat) (text : List Char) :
    GoesByAbbreviation fun unit =>
      (stepOf? metricPrefix taken text unit).bind (Step.choice? later) := by
  intro definition other same
  simp only [stepOf?, same]
  cases other.abbreviation.toList.isPrefixOf? text with
  | none => exact .none
  | some rest =>
      cases read : readExponent rest with
      | none => simp [read]
      | some exponentAndDigits =>
          rcases exponentAndDigits with ⟨exponent, digits⟩
          simp only [Option.bind_eq_bind, Option.bind_some, read, Option.pure_def]
          exact ties_choice? later rfl rfl same

/-- The choices of the steps after a prefix are made unit by unit. -/
theorem foldl_improve_stepsAfter (later : List (Option Choice))
    (metricPrefix : Option MetricPrefix) (taken : Nat) (text : List Char) (best : Option Choice) :
    ((stepsAfter (firstDefinitions units) metricPrefix taken text).filterMap
        (Step.choice? later)).foldl improve best =
      ((stepsAfter units metricPrefix taken text).filterMap
        (Step.choice? later)).foldl improve best := by
  have byUnits : ∀ units, (stepsAfter units metricPrefix taken text).filterMap
      (Step.choice? later) = units.filterMap fun unit =>
        (stepOf? metricPrefix taken text unit).bind (Step.choice? later) :=
    fun units => List.filterMap_filterMap
  rw [byUnits, byUnits, foldl_improve_filterMap, foldl_improve_filterMap]
  exact foldl_tryUnit_firstDefinitions
    (goesByAbbreviation_stepOf? later metricPrefix taken text) units best

/-- The best choice for a text is the same without the later definitions. -/
theorem bestOf_firstDefinitions (later : List (Option Choice)) (text : List Char) :
    bestOf ((steps ⟨firstDefinitions units, prefixes⟩ text).filterMap (Step.choice? later)) =
      bestOf ((steps ⟨units, prefixes⟩ text).filterMap (Step.choice? later)) := by
  change List.foldl improve none _ = List.foldl improve none _
  cases text with
  | nil => exact foldl_improve_stepsAfter later none 0 [] none
  | cons first rest =>
      simp only [steps, List.filterMap_append, List.foldl_append, foldl_improve_stepsAfter]
      generalize List.foldl improve none _ = best
      induction prefixes.filter fun metricPrefix => metricPrefix.symbol == first
        generalizing best with
      | nil => rfl
      | cons metricPrefix others ih =>
          simp only [List.flatMap_cons, List.filterMap_append, List.foldl_append,
            foldl_improve_stepsAfter]
          exact ih _

theorem choices_firstDefinitions (run : List Char) :
    choices ⟨firstDefinitions units, prefixes⟩ run = choices ⟨units, prefixes⟩ run := by
  induction run with
  | nil => rfl
  | cons first rest ih => simp only [choices, ih, bestOf_firstDefinitions]

end Segmentation

namespace UnitSystem

/-- Unit literals are read the same without the later definitions. -/
theorem parse_firstDefinitions (literal : String) :
    parse ⟨firstDefinitions units, prefixes⟩ literal = parse ⟨units, prefixes⟩ literal := by
  have sameRun :
      multiplyRun ⟨firstDefinitions units, prefixes⟩ = multiplyRun ⟨units, prefixes⟩ := by
    funext literal sign unit run
    simp only [multiplyRun, segment?, Segmentation.choices_firstDefinitions]
  simp only [parse, sameRun]

/-- The unit that results of a dimension are preferably shown in. -/
def preferred? (system : UnitSystem) (dimension : Dimension) : Option UnitDefinition :=
  system.units.find? fun definition =>
    definition.standard && definition.unit.dimension == dimension

theorem displayUnit_of_preferred? {system : UnitSystem} {dimension : Dimension}
    (isPreferred : system.preferred? dimension = some shown) :
    system.displayUnit dimension = ⟨shown.abbreviation, shown.unit.scale⟩ := by
  rw [preferred?] at isPreferred
  simp only [displayUnit, isPreferred]

theorem displayUnit_of_preferred?_eq_none {system : UnitSystem} {dimension : Dimension}
    (noPreferred : system.preferred? dimension = none) :
    system.displayUnit dimension = ⟨dimension.expression, 1⟩ := by
  rw [preferred?] at noPreferred
  simp only [displayUnit, noPreferred]

end UnitSystem

section Find

variable {property : UnitDefinition → Bool}

/-- Of two members that are each the first with a property, and have the property of the other,
neither comes before the other. -/
theorem eq_of_find?_eq_some {α : Type} {list : List α} {left right : α} {first second : α → Bool}
    (isLeft : list.find? first = some left) (isRight : list.find? second = some right)
    (alsoSecond : second left = true) (alsoFirst : first right = true) : left = right := by
  induction list with
  | nil => cases isLeft
  | cons head rest ih =>
      rw [List.find?_cons] at isLeft isRight
      split at isLeft
      · cases isLeft
        rw [alsoSecond] at isRight
        cases isRight
        rfl
      · split at isRight
        · cases isRight
          simp_all
        · exact ih isLeft isRight

/-- What is left of a list are first definitions of their abbreviations. -/
theorem find?_of_mem_firstDefinitions (member : definition ∈ firstDefinitions units) :
    units.find? (·.abbreviation == definition.abbreviation) = some definition := by
  induction units with
  | nil => simp [firstDefinitions] at member
  | cons first later ih =>
      rcases List.mem_cons.mp member with rfl | inLater
      · simp
      · rcases List.mem_filter.mp inLater with ⟨inFirst, otherName⟩
        have differs : (first.abbreviation == definition.abbreviation) = false := by
          rw [bne_iff_ne] at otherName
          exact beq_eq_false_iff_ne.mpr otherName.symm
        simp only [List.find?_cons, differs]
        exact ih inFirst

/-- A unit that is the first with a property, and also the first definition of its abbreviation, is
still the first with the property without the later definitions. -/
theorem find?_firstDefinitions_of_first (isShown : units.find? property = some shown)
    (isFirst : units.find? (·.abbreviation == shown.abbreviation) = some shown) :
    (firstDefinitions units).find? property = some shown := by
  induction units with
  | nil => cases isShown
  | cons definition later ih =>
      rw [firstDefinitions, List.find?_cons]
      cases has : property definition with
      | true => simpa [has] using isShown
      | false =>
          simp only [List.find?_cons, has] at isShown
          cases same : definition.abbreviation == shown.abbreviation with
          | true =>
              simp only [List.find?_cons, same, Option.some.injEq] at isFirst
              subst isFirst
              have holds := List.find?_some isShown
              rw [has] at holds
              cases holds
          | false =>
              simp only [List.find?_cons, same] at isFirst
              rcases List.find?_eq_some_iff_append.mp (ih isShown isFirst) with
                ⟨holds, before, after, isSplit, noneBefore⟩
              have otherName : shown.abbreviation ≠ definition.abbreviation :=
                fun equal => by simp [equal] at same
              rw [List.find?_filter, isSplit]
              refine List.find?_eq_some_iff_append.mpr
                ⟨by simp [otherName, holds], before, after, rfl, fun other member => ?_⟩
              have fails := noneBefore other member
              simp_all

end Find

namespace UnitSystem

variable {dimension : Dimension}

/-- Abbreviations mean the same without the later definitions. -/
theorem get?_firstDefinitions (abbreviation : String) :
    get? ⟨firstDefinitions units, prefixes⟩ abbreviation = get? ⟨units, prefixes⟩ abbreviation := by
  rw [get?_eq_find?, get?_eq_find?]
  exact find?_firstDefinitions units abbreviation

/-- If the preferred unit is not the first definition of its abbreviation, no unit that is left
without the later definitions has its abbreviation and its dimension. -/
theorem abbreviation_ne_of_preferred?
    (isShown : preferred? ⟨units, prefixes⟩ dimension = some shown)
    (notFirst : get? ⟨units, prefixes⟩ shown.abbreviation ≠ some shown)
    (isOther : preferred? ⟨firstDefinitions units, prefixes⟩ dimension = some other) :
    other.abbreviation ≠ shown.abbreviation := by
  intro same
  rw [preferred?] at isShown isOther
  rw [get?_eq_find?] at notFirst
  have otherFirst := find?_of_mem_firstDefinitions (List.mem_of_find?_eq_some isOther)
  have otherPreferred := List.find?_some isOther
  have sameUnit := eq_of_find?_eq_some isShown otherFirst (by simp [same]) otherPreferred
  subst sameUnit
  exact notFirst otherFirst

/-- Results of a dimension are shown the same without the later definitions just if the preferred
unit is the first definition of its abbreviation, or happens to be the base units written out where
no other unit is preferred. -/
theorem displayUnit_firstDefinitions_iff (dimension : Dimension) :
    displayUnit ⟨firstDefinitions units, prefixes⟩ dimension =
        displayUnit ⟨units, prefixes⟩ dimension ↔
      ∀ shown, preferred? ⟨units, prefixes⟩ dimension = some shown →
        get? ⟨units, prefixes⟩ shown.abbreviation = some shown ∨
          preferred? ⟨firstDefinitions units, prefixes⟩ dimension = none ∧
            shown.abbreviation = dimension.expression ∧ shown.unit.scale = 1 := by
  cases isShown : preferred? ⟨units, prefixes⟩ dimension with
  | none =>
      have noneLeft : preferred? ⟨firstDefinitions units, prefixes⟩ dimension = none := by
        refine List.find?_eq_none.mpr fun definition member => ?_
        have isUnit := List.mem_of_find?_eq_some (find?_of_mem_firstDefinitions member)
        exact List.find?_eq_none.mp isShown definition isUnit
      simp [displayUnit_of_preferred?_eq_none isShown, displayUnit_of_preferred?_eq_none noneLeft]
  | some shown =>
      simp only [Option.some.injEq, forall_eq']
      rw [displayUnit_of_preferred? isShown]
      by_cases isFirst : get? ⟨units, prefixes⟩ shown.abbreviation = some shown
      · have stillShown : preferred? ⟨firstDefinitions units, prefixes⟩ dimension = some shown :=
          find?_firstDefinitions_of_first isShown ((get?_eq_find? _ _).symm.trans isFirst)
        rw [displayUnit_of_preferred? stillShown]
        exact iff_of_true rfl (.inl isFirst)
      · cases isOther : preferred? ⟨firstDefinitions units, prefixes⟩ dimension with
        | none =>
            simp [displayUnit_of_preferred?_eq_none isOther, isFirst, eq_comm]
        | some other =>
            have differs := abbreviation_ne_of_preferred? isShown isFirst isOther
            simp [displayUnit_of_preferred? isOther, isFirst, differs]

/-- Later definitions of an abbreviation change neither what an abbreviation stands for nor what a
unit literal stands for. They can change the unit that results of a dimension are shown in, and do
just if the preferred unit of the dimension is itself such a later definition, unless it happens to
be what is shown without it. -/
theorem later_definitions_only_displayed (units : List UnitDefinition)
    (prefixes : List MetricPrefix) :
    let full := new units prefixes
    let first := new (firstDefinitions units) prefixes
    (∀ abbreviation, first.get? abbreviation = full.get? abbreviation) ∧
    (∀ literal, first.parse literal = full.parse literal) ∧
    ∀ dimension,
      first.displayUnit dimension = full.displayUnit dimension ↔
        ∀ shown, full.preferred? dimension = some shown →
          full.get? shown.abbreviation = some shown ∨
            first.preferred? dimension = none ∧
              shown.abbreviation = dimension.expression ∧ shown.unit.scale = 1 :=
  ⟨get?_firstDefinitions, parse_firstDefinitions, displayUnit_firstDefinitions_iff⟩

/-- Where the abbreviation of the meter is defined once more for minutes, times are shown in it. -/
theorem displayUnit_minute_ne :
    let meter : UnitDefinition := ⟨"m", "meter", "", ⟨.ofBase .meter, 1⟩, true⟩
    let minute : UnitDefinition := ⟨"m", "minute", "", ⟨.ofBase .second, 60⟩, true⟩
    let second : UnitDefinition := ⟨"s", "second", "", ⟨.ofBase .second, 1⟩, false⟩
    let units := [meter, minute, second]
    (new (firstDefinitions units) []).displayUnit (.ofBase .second) ≠
      (new units []).displayUnit (.ofBase .second) := by
  intro meter minute second units same
  have sameSymbol := congrArg DisplayUnit.symbol same
  have fullSymbol : ((new units []).displayUnit (.ofBase .second)).symbol = "m" := by decide
  have firstSymbol :
      ((new (firstDefinitions units) []).displayUnit (.ofBase .second)).symbol = "s" := by
    decide
  rw [firstSymbol, fullSymbol] at sameSymbol
  exact absurd sameSymbol (by decide)

end UnitSystem

end Metrology

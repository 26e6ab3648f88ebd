import Metrology.Proofs.Expression.Caching

/-!
# What the value of an expression depends on

An expression involves its own tokens and, with every name that stands for a lock, the tokens of
this lock. Of a store only what is stored under the names involved can be noticed: where two stores
agree on them, the expression has the same value in both or fails with the same error, down to the
chain of a reported cycle. Whatever is stored, replaced or removed under any other name changes
nothing.
-/

namespace Metrology

namespace Environment

/-- The least set of names that holds the tokens of an expression and, with each name that is
neither a constant nor a label but a lock, the tokens of this lock. -/
inductive Involves (environment : Environment) (tokens : List String) : String → Prop where
  | token {name : String} (member : name ∈ tokens) : Involves environment tokens name
  | lock {name next : String} {lockTokens : List String}
      (involved : Involves environment tokens name)
      (notConstant : environment.constants.get? name = none)
      (notLabel : environment.store.label? name = none)
      (isLock : environment.store.lock? name = some lockTokens) (member : next ∈ lockTokens) :
      Involves environment tokens next

/-- Whether another store has the same labels and locks under the names that are involved. -/
def AgreesWhereInvolved (environment : Environment) (tokens : List String) (other : Store) :
    Prop :=
  ∀ name, environment.Involves tokens name →
    other.label? name = environment.store.label? name ∧
      other.lock? name = environment.store.lock? name

variable {environment : Environment} {tokens lockTokens : List String} {name : String}
  {other : Store}

/-- The tokens of a lock that is involved are involved. -/
theorem Involves.of_meaning (involved : environment.Involves tokens name)
    (means : environment.meaning name = .lock lockTokens) :
    ∀ token ∈ lockTokens, environment.Involves tokens token := by
  intro token member
  rcases meaning_eq_lock_iff.mp means with ⟨notConstant, isLock⟩
  exact .lock involved notConstant (Store.label?_eq_none_of_lock? isLock) isLock member

theorem AgreesWhereInvolved.meaning_eq (agrees : environment.AgreesWhereInvolved tokens other)
    (involved : environment.Involves tokens name) :
    { environment with store := other }.meaning name = environment.meaning name := by
  rcases agrees name involved with ⟨sameLabel, sameLock⟩
  apply meaning_of_get?_eq
  rw [Store.get?, sameLabel, sameLock]
  rfl

/-- A name that is involved has the same value or the same error, within the expansions of whatever
locks. -/
theorem AgreesWhereInvolved.resolve_eq {chain : List String} {name : String}
    (agrees : environment.AgreesWhereInvolved tokens other)
    (involved : environment.Involves tokens name) :
    { environment with store := other }.resolve chain name = environment.resolve chain name := by
  refine resolve_congr rfl rfl (agrees.meaning_eq involved) ?_
  intro lockTokens means fresh token member _
  exact agrees.resolve_eq (involved.of_meaning means token member)
termination_by environment.unexpanded chain
decreasing_by exact unexpanded_append_lt means fresh

theorem AgreesWhereInvolved.evaluate_eq (agrees : environment.AgreesWhereInvolved tokens other) :
    { environment with store := other }.evaluate tokens = environment.evaluate tokens := by
  apply Expression.reduce_congr
  intro token member _
  exact agrees.resolve_eq (.token member)

/-- A store that differs at one name only agrees where this name is not involved. -/
theorem agreesWhereInvolved_of_get?_eq (notInvolved : ¬environment.Involves tokens name)
    (same : ∀ further, name ≠ further → other.get? further = environment.store.get? further) :
    environment.AgreesWhereInvolved tokens other := by
  intro further involved
  have sameEntry := same further fun isName => notInvolved (isName ▸ involved)
  constructor
  · apply Option.ext
    intro quantity
    simp only [Store.label?_eq_some_iff, sameEntry]
  · apply Option.ext
    intro lockTokens
    simp only [Store.lock?_eq_some_iff, sameEntry]

/-- Evaluation depends on a store only where names are involved. Two stores with the same labels and
locks under the names that an expression involves give it the same value or the same error. So
neither storing under any other name nor removing it changes what the expression evaluates to. -/
theorem evaluate_depends_on_involved (environment : Environment) (tokens : List String) :
    (∀ other : Store,
      (∀ name, environment.Involves tokens name →
        other.label? name = environment.store.label? name ∧
          other.lock? name = environment.store.lock? name) →
      { environment with store := other }.evaluate tokens = environment.evaluate tokens) ∧
    ∀ name, ¬environment.Involves tokens name →
      (∀ entry changed, environment.store.insert? name entry = .ok changed →
        { environment with store := changed }.evaluate tokens = environment.evaluate tokens) ∧
      { environment with store := environment.store.erase name }.evaluate tokens =
        environment.evaluate tokens := by
  refine ⟨fun other => AgreesWhereInvolved.evaluate_eq, ?_⟩
  intro name notInvolved
  constructor
  · intro entry changed isChanged
    apply AgreesWhereInvolved.evaluate_eq
    apply agreesWhereInvolved_of_get?_eq notInvolved
    intro further different
    rw [Store.get?_of_insert? isChanged, if_neg different]
  · apply AgreesWhereInvolved.evaluate_eq
    apply agreesWhereInvolved_of_get?_eq notInvolved
    intro further different
    rw [Store.get?_erase, if_neg different]

end Environment

end Metrology

import Metrology.Proofs.Expression.Cycle
import Metrology.Proofs.Store.Entry

/-!
# Replacing a lock by its value

A lock that has a value may be replaced by a label with that value: no expression gives anything
else afterwards, be it a value or an error, and the chain of a reported cycle stays the same.

The lock may be met at any depth, within the expansions of other locks, while its value was found
with no lock in progress. Two facts bridge this. The value of a lock is the same within all
expansions of locks that it does not lead to. And whatever locks are in progress where the lock is
met lead to it; if it led to one of them, it would lead back to itself, and would have no value.
-/

namespace Metrology

namespace Environment

variable {environment : Environment} {chain others tokens : List String}
  {name next token : String} {quantity : Quantity Float}

/-- Whether a lock leads, over any number of locks, to another one or to itself. -/
def LeadsIndirectly (environment : Environment) : String → String → Prop :=
  Relation.ReflTransGen environment.LeadsTo

/-- An operand with a value has the same value within the expansions of any locks that it does not
lead to. -/
theorem resolve_of_not_leadsIndirectly (isOperand : Token.ofString name = .operand)
    (isValue : environment.resolve chain name = .ok quantity)
    (apart : environment.StandsForLock name →
      ∀ other ∈ others, ¬environment.LeadsIndirectly name other) :
    environment.resolve others name = .ok quantity := by
  induction chain, name using resolve.induct environment generalizing others quantity with
  | case1 chain name value means =>
      rw [resolve_of_value means] at isValue ⊢
      exact isValue
  | case2 chain name means =>
      rw [resolve_of_literal means] at isValue ⊢
      exact isValue
  | case3 chain name lockTokens means member =>
      rw [resolve_of_mem means member] at isValue
      cases isValue
  | case4 chain name lockTokens means fresh ih =>
      have apartFromLock := apart ⟨isOperand, lockTokens, means⟩
      have otherFresh : name ∉ others := fun member => apartFromLock name member .refl
      have noReturn := not_transGen_of_resolve_eq_ok isValue
      rw [resolve_of_notMem means fresh] at isValue
      rw [resolve_of_notMem means otherFresh, ← isValue]
      refine Expression.reduce_congr fun token member isToken => ?_
      rcases Expression.exists_value_of_reduce_eq_ok isValue token member isToken with
        ⟨value, isTokenValue⟩
      rw [isTokenValue]
      refine ih token isToken isTokenValue fun isLock other inChain leads => ?_
      have leadsTo : environment.LeadsTo name token := ⟨lockTokens, means, member, isLock⟩
      rcases List.mem_append.mp inChain with inOthers | isName
      · exact apartFromLock other inOthers (.head leadsTo leads)
      · rw [List.mem_singleton.mp isName] at leads
        exact noReturn (.head' leadsTo leads)

/-- Whether two environments differ at most in one name, which has a given value in the first. -/
structure Caches (cached environment : Environment) (name : String) (quantity : Quantity Float) :
    Prop where
  system : cached.system = environment.system
  previous : cached.previous = environment.previous
  value : cached.meaning name = .value quantity
  others : ∀ other, other ≠ name → cached.meaning other = environment.meaning other

variable {cached : Environment}

/-- The operand that is replaced has its value within the expansions of all locks that lead to
it. -/
theorem resolve_of_leadingLocks (isOperand : Token.ofString name = .operand)
    (isValue : environment.resolve [] name = .ok quantity)
    (inProgress : environment.StandsForLock name →
      ∀ other ∈ chain, Relation.TransGen environment.LeadsTo other name) :
    environment.resolve chain name = .ok quantity := by
  refine resolve_of_not_leadsIndirectly isOperand isValue fun isLock other member leads => ?_
  have returns := Relation.TransGen.trans_right leads (inProgress isLock other member)
  exact not_transGen_of_resolve_eq_ok isValue returns

/-- Within the expansions of locks that lead to it, an operand has the same value or the same error
in both environments. -/
theorem Caches.resolve_eq {chain : List String} {operand : String}
    (caches : cached.Caches environment name quantity)
    (isName : Token.ofString name = .operand)
    (isValue : environment.resolve [] name = .ok quantity)
    (isOperand : Token.ofString operand = .operand)
    (inProgress : environment.StandsForLock operand →
      ∀ other ∈ chain, Relation.TransGen environment.LeadsTo other operand) :
    cached.resolve chain operand = environment.resolve chain operand := by
  by_cases isSame : operand = name
  · subst isSame
    rw [resolve_of_value caches.value, resolve_of_leadingLocks isName isValue inProgress]
  · apply resolve_congr caches.system caches.previous (caches.others operand isSame)
    intro lockTokens means fresh token inLock isToken
    apply caches.resolve_eq isName isValue isToken
    intro isLock other inChain
    have leadsTo : environment.LeadsTo operand token := ⟨lockTokens, means, inLock, isLock⟩
    rcases List.mem_append.mp inChain with earlier | isLast
    · exact .tail (inProgress ⟨isOperand, lockTokens, means⟩ other earlier) leadsTo
    · rw [List.mem_singleton.mp isLast]
      exact .single leadsTo
-- Every expansion on the way adds a lock to the chain, so fewer are left to expand.
termination_by environment.unexpanded chain
decreasing_by exact unexpanded_append_lt means fresh

theorem Caches.evaluate_eq (caches : cached.Caches environment name quantity)
    (isName : Token.ofString name = .operand)
    (isValue : environment.resolve [] name = .ok quantity) :
    cached.evaluate tokens = environment.evaluate tokens := by
  rw [evaluate, caches.previous]
  refine Expression.reduce_congr fun token _ isToken => ?_
  exact caches.resolve_eq isName isValue isToken fun _ other member =>
    absurd member List.not_mem_nil

variable {changed : Store} {lockTokens : List String}

theorem meaning_of_get?_eq (same : changed.get? name = environment.store.get? name) :
    { environment with store := changed }.meaning name = environment.meaning name := by
  simp only [meaning, same]

/-- A label with the value of an operand means this value, also where a constant comes first. -/
theorem meaning_of_label (isValue : environment.resolve [] name = .ok quantity)
    (isLabel : changed.get? name = some (.label quantity)) :
    { environment with store := changed }.meaning name = .value quantity := by
  cases isConstant : environment.constants.get? name with
  | none => simp only [meaning, isConstant, isLabel]
  | some constant =>
      have means : environment.meaning name = .value constant := by
        simp only [meaning, isConstant]
      rw [resolve_of_value means, Except.ok.injEq] at isValue
      simp only [meaning, isConstant, isValue]

/-- What can be the name of a stored value is an operand. -/
theorem ofString_of_check (isName : Name.check name = .ok ()) :
    Token.ofString name = .operand := by
  unfold Name.check at isName
  split at isName
  · cases isName
  · rename_i notReserved
    split at isName
    · rename_i wellFormed
      refine Token.ofString_eq_operand_iff.mpr ⟨fun member => notReserved ?_, fun caret => ?_⟩
      · rw [List.contains_iff_mem]
        simp only [Name.reservedWords, List.mem_cons] at member ⊢
        tauto
      · cases isText : name.toList with
        | nil => simp [isText] at caret
        | cons first rest =>
            simp only [isText, List.head?_cons, Option.some.injEq] at caret
            simp [Name.isWellFormed, Name.canBegin, isText, caret] at wellFormed
    · cases isName

/-- Replacing a lock by its value cannot be noticed. In a store that is built by its operations, a
lock that has a value can be replaced by a label with this value, and every expression gives the
same value or the same error afterwards. -/
theorem evaluate_insert_label {environment : Environment} {name : String}
    {lockTokens : List String} {quantity : Quantity Float}
    (built : environment.store.Built) (isLock : environment.store.lock? name = some lockTokens)
    (isValue : environment.evaluate [name] = .ok quantity) :
    ∃ changed, environment.store.insert? name (.label quantity) = .ok changed ∧
      ∀ tokens, { environment with store := changed }.evaluate tokens =
        environment.evaluate tokens := by
  have isName := built.check_eq_ok (Store.lock?_eq_some_iff.mp isLock)
  have isOperand := ofString_of_check isName
  have isResolved := (evaluate_singleton isOperand).symm.trans isValue
  rcases environment.store.exists_insert? (.label quantity) isName with ⟨changed, isChanged⟩
  refine ⟨changed, isChanged, fun tokens => ?_⟩
  have caches : { environment with store := changed }.Caches environment name quantity := by
    refine ⟨rfl, rfl, meaning_of_label isResolved ?_, fun other notName => meaning_of_get?_eq ?_⟩
    · rw [Store.get?_of_insert? isChanged, if_pos rfl]
    · rw [Store.get?_of_insert? isChanged, if_neg notName.symm]
  exact caches.evaluate_eq isOperand isResolved

/-- The lock `b` may be replaced by its value, although `a` is a cycle in which it is met. -/
theorem evaluate_insert_label_within_cycle :
    let store := (Store.empty.write "b" (.lock ["ans"])).write "a" (.lock ["b", "a"])
    let environment : Environment := ⟨⟨[], []⟩, {}, store, .dimensionless 0⟩
    let quantity := Quantity.dimensionless 0
    environment.store.Built ∧ environment.store.lock? "b" = some ["ans"] ∧
      environment.evaluate ["b"] = .ok quantity ∧
      ∃ changed, environment.store.insert? "b" (.label quantity) = .ok changed ∧
        ∀ tokens, { environment with store := changed }.evaluate tokens =
          environment.evaluate tokens := by
  intro store environment quantity
  have built : environment.store.Built :=
    (Store.Built.empty.write (.lock ["ans"]) (by decide)).write (.lock ["b", "a"]) (by decide)
  have isLock : environment.store.lock? "b" = some ["ans"] := by
    cbv
  have means : environment.meaning "b" = .lock ["ans"] := by
    cbv
  have isResolved : environment.resolve [] "b" = .ok quantity := by
    rw [resolve_of_notMem means (by simp)]
    rfl
  have isValue : environment.evaluate ["b"] = .ok quantity :=
    Expression.reduce_eq_ok_iff.mpr
      ⟨[], Expression.run_cons_of_stepsTo (.operand (by decide) isResolved)⟩
  exact ⟨built, isLock, isValue, evaluate_insert_label built isLock isValue⟩

end Environment

end Metrology

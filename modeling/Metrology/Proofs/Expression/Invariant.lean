import Metrology.Proofs.Constants.Lookup
import Metrology.Proofs.Expression.Resolution
import Metrology.Proofs.Quantity.Invariant

/-!
# Values of expressions are finite

An expression takes quantities from its environment, from literals and from its own operations.
Literals and all operations but the negation give finite quantities only, and the negation keeps
them finite. So where the quantities of the environment are finite the value is, however deep the
locks in it are nested.
-/

namespace Metrology

variable {left right result quantity : Quantity Float} {operator : BinaryOperator}

theorem BinaryOperator.isFinite_of_apply (isResult : operator.apply left right = .ok result) :
    result.IsFinite := by
  cases operator with
  | plus => exact Quantity.isFinite_of_add? isResult
  | minus => exact Quantity.isFinite_of_sub? isResult
  | times => exact Quantity.isFinite_of_mul? isResult
  | dividedBy => exact Quantity.isFinite_of_div? isResult

namespace Expression

variable {operand : String → Except EvalError (Quantity Float)} {previous value : Quantity Float}
  {stack next final : Stack} {token : String} {tokens : List String}

/-- A token leaves only finite quantities on the stack if there were no others. -/
theorem isFinite_of_stepsTo (ofPrevious : previous.IsFinite)
    (ofOperand : ∀ quantity, operand token = .ok quantity → quantity.IsFinite)
    (ofStack : ∀ quantity ∈ stack, quantity.IsFinite)
    (steps : StepsTo operand previous stack token next) :
    ∀ quantity ∈ next, quantity.IsFinite := by
  cases steps with
  | binary _ isResult =>
      simp only [List.forall_mem_cons] at ofStack ⊢
      exact ⟨BinaryOperator.isFinite_of_apply isResult, ofStack.2.2⟩
  | previous => exact List.forall_mem_cons.mpr ⟨ofPrevious, ofStack⟩
  | negation =>
      simp only [List.forall_mem_cons] at ofStack ⊢
      exact ⟨ofStack.1.neg, ofStack.2⟩
  | power _ _ isResult =>
      simp only [List.forall_mem_cons] at ofStack ⊢
      exact ⟨Quantity.isFinite_of_pow? isResult, ofStack.2⟩
  | operand _ isValue => exact List.forall_mem_cons.mpr ⟨ofOperand _ isValue, ofStack⟩

theorem isFinite_of_run (ofPrevious : previous.IsFinite)
    (ofOperand : ∀ token quantity, operand token = .ok quantity → quantity.IsFinite)
    (ofStack : ∀ quantity ∈ stack, quantity.IsFinite)
    (isFinal : run operand previous stack tokens = .ok final) :
    ∀ quantity ∈ final, quantity.IsFinite := by
  induction tokens generalizing stack with
  | nil =>
      cases isFinal
      exact ofStack
  | cons token tokens ih =>
      rcases run_cons_eq_ok_iff.mp isFinal with ⟨next, steps, isRest⟩
      exact ih (isFinite_of_stepsTo ofPrevious (ofOperand token) ofStack steps) isRest

theorem isFinite_of_reduce (ofPrevious : previous.IsFinite)
    (ofOperand : ∀ token quantity, operand token = .ok quantity → quantity.IsFinite)
    (isValue : reduce operand previous tokens = .ok value) : value.IsFinite := by
  rcases reduce_eq_ok_iff.mp isValue with ⟨below, isFinal⟩
  exact isFinite_of_run ofPrevious ofOperand (by simp) isFinal value (by simp)

end Expression

namespace Environment

variable {environment : Environment} {chain tokens : List String} {name : String}

/-- The quantities that an environment holds: the previous answer, the labels and the constants. -/
inductive Holds (environment : Environment) : Quantity Float → Prop where
  | previous : Holds environment environment.previous
  | label {name : String} {quantity : Quantity Float}
      (found : environment.store.get? name = some (.label quantity)) : Holds environment quantity
  | constant {constant : Constant} (member : constant ∈ environment.constants.entries) :
      Holds environment constant.quantity

/-- A name that means a quantity means one that the environment holds. -/
theorem holds_of_meaning (means : environment.meaning name = .value quantity) :
    environment.Holds quantity := by
  unfold meaning at means
  split at means
  · rename_i isConstant
    cases means
    rw [Constants.get?, Option.map_eq_some_iff] at isConstant
    rcases isConstant with ⟨constant, found, rfl⟩
    exact .constant (Constants.find?_eq_some_iff.mp found).1
  · rename_i isLabel
    cases means
    exact .label isLabel
  · cases means
  · cases means

/-- The value of an operand is finite, within whatever locks it is expanded. -/
theorem isFinite_of_resolve (held : ∀ quantity, environment.Holds quantity → quantity.IsFinite)
    (chain : List String) (name : String) :
    ∀ quantity, environment.resolve chain name = .ok quantity → quantity.IsFinite := by
  induction chain, name using resolve.induct environment with
  | case1 chain name value means =>
      intro quantity isValue
      rw [resolve_of_value means] at isValue
      cases isValue
      exact held _ (holds_of_meaning means)
  | case2 chain name means =>
      intro quantity isValue
      rw [resolve_of_literal means] at isValue
      cases isQuantity : Quantity.parse environment.system name with
      | error _ =>
          rw [isQuantity] at isValue
          cases isValue
      | ok parsed =>
          rw [isQuantity] at isValue
          cases isValue
          exact Quantity.isFinite_of_parse isQuantity
  | case3 chain name lockTokens means member =>
      intro quantity isValue
      rw [resolve_of_mem means member] at isValue
      cases isValue
  | case4 chain name lockTokens means fresh ih =>
      intro quantity isValue
      rw [resolve_of_notMem means fresh] at isValue
      exact Expression.isFinite_of_reduce (held _ .previous) ih isValue

theorem isFinite_of_evaluate (held : ∀ quantity, environment.Holds quantity → quantity.IsFinite)
    (isValue : environment.evaluate tokens = .ok quantity) : quantity.IsFinite :=
  Expression.isFinite_of_reduce (held _ .previous) (isFinite_of_resolve held []) isValue

end Environment

end Metrology

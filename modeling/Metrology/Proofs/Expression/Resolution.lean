import Metrology.Proofs.Expression.Reduction

/-!
# Values of operands

The value of an operand by its meaning, one equation for each case, and what the value of a whole
expression says about the operands in it.
-/

namespace Metrology

namespace Expression

variable {operand : String → Except EvalError (Quantity Float)} {previous value : Quantity Float}
  {stack final : Stack} {tokens : List String} {name : String} {chain : List String}

/-- Where a run comes to its end, every operand in it has a value. -/
theorem exists_value_of_run_eq_ok (isFinal : run operand previous stack tokens = .ok final) :
    ∀ token ∈ tokens, Token.ofString token = .operand → ∃ value, operand token = .ok value := by
  induction tokens generalizing stack with
  | nil => simp
  | cons first tokens ih =>
      rcases run_cons_eq_ok_iff.mp isFinal with ⟨next, steps, isRest⟩
      intro token member isToken
      rcases List.mem_cons.mp member with rfl | later
      · cases steps with
        | operand _ isValue => exact ⟨_, isValue⟩
        | _ => simp_all
      · exact ih isRest token later isToken

theorem exists_value_of_reduce_eq_ok (isValue : reduce operand previous tokens = .ok value) :
    ∀ token ∈ tokens, Token.ofString token = .operand → ∃ value, operand token = .ok value := by
  rcases reduce_eq_ok_iff.mp isValue with ⟨below, isFinal⟩
  exact exists_value_of_run_eq_ok isFinal

/-- The machine itself has no cycles: where one is reported, an operand has reported it. -/
theorem exists_operand_of_run_eq_cyclicLock
    (isError : run operand previous stack tokens = .error (.cyclicLock name chain)) :
    ∃ token ∈ tokens, Token.ofString token = .operand ∧
      operand token = .error (.cyclicLock name chain) := by
  induction tokens generalizing stack with
  | nil => cases isError
  | cons first tokens ih =>
      rcases run_cons_eq_error_iff.mp isError with fails | ⟨next, _, isRest⟩
      · cases fails with
        | operand isToken isError => exact ⟨first, by simp, isToken, isError⟩
      · rcases ih isRest with ⟨token, member, isOperand⟩
        exact ⟨token, List.mem_cons_of_mem first member, isOperand⟩

theorem exists_operand_of_reduce_eq_cyclicLock
    (isError : reduce operand previous tokens = .error (.cyclicLock name chain)) :
    ∃ token ∈ tokens, Token.ofString token = .operand ∧
      operand token = .error (.cyclicLock name chain) := by
  rcases reduce_eq_error_iff.mp isError with isError | ⟨_, isEmpty⟩
  · exact exists_operand_of_run_eq_cyclicLock isError
  · cases isEmpty

variable {otherOperand : String → Except EvalError (Quantity Float)}

theorem step_congr {token : String}
    (agree : Token.ofString token = .operand → operand token = otherOperand token) :
    step operand previous stack token = step otherOperand previous stack token := by
  unfold step
  cases isToken : Token.ofString token with
  | operand => rw [agree isToken]
  | _ => rfl

/-- The value of an operand is put on top of the stack. -/
theorem step_of_operand (isOperand : Token.ofString name = .operand) :
    step operand previous stack name = (operand name).map (· :: stack) := by
  simp only [step, isOperand]
  cases operand name <;> rfl

theorem run_operand (isOperand : Token.ofString name = .operand) :
    run operand previous stack [name] = (operand name).map (· :: stack) := by
  rw [run, List.foldlM_cons, step_of_operand isOperand]
  cases operand name <;> rfl

theorem run_congr
    (agree : ∀ token ∈ tokens, Token.ofString token = .operand →
      operand token = otherOperand token) :
    run operand previous stack tokens = run otherOperand previous stack tokens := by
  induction tokens generalizing stack with
  | nil => rfl
  | cons token tokens ih =>
      have sameStep : step operand previous stack token =
          step otherOperand previous stack token := step_congr (agree token (by simp))
      have sameRest : ∀ next,
          run operand previous next tokens = run otherOperand previous next tokens :=
        fun _ => ih fun other member => agree other (List.mem_cons_of_mem token member)
      unfold run at sameRest ⊢
      simp only [List.foldlM_cons, sameStep, sameRest]

/-- An expression gives the same with other operands if those among its tokens are the same. -/
theorem reduce_congr
    (agree : ∀ token ∈ tokens, Token.ofString token = .operand →
      operand token = otherOperand token) :
    reduce operand previous tokens = reduce otherOperand previous tokens := by
  rw [reduce_eq_run, reduce_eq_run, run_congr agree]

end Expression

namespace Environment

variable {environment : Environment} {chain tokens : List String} {name : String}
  {quantity : Quantity Float}

/-- A name stands for a lock just if it is no constant and is stored as a lock. -/
theorem meaning_eq_lock_iff :
    environment.meaning name = .lock tokens ↔
      environment.constants.get? name = none ∧ environment.store.lock? name = some tokens := by
  rw [Store.lock?_eq_some_iff]
  unfold meaning
  split <;> simp_all

theorem resolve_of_value (means : environment.meaning name = .value quantity) :
    environment.resolve chain name = .ok quantity := by
  rw [resolve]
  split <;> simp_all

theorem resolve_of_literal (means : environment.meaning name = .literal) :
    environment.resolve chain name =
      EvalError.ofQuantity (Quantity.parse environment.system name) := by
  rw [resolve]
  split <;> simp_all

/-- A lock that is being expanded already is an error. -/
theorem resolve_of_mem (means : environment.meaning name = .lock tokens) (member : name ∈ chain) :
    environment.resolve chain name = .error (.cyclicLock name (chain ++ [name])) := by
  rw [resolve]
  split <;> simp_all

/-- Any other lock has the value of its tokens, within one more expansion. -/
theorem resolve_of_notMem (means : environment.meaning name = .lock tokens)
    (fresh : name ∉ chain) :
    environment.resolve chain name =
      Expression.reduce (environment.resolve (chain ++ [name])) environment.previous tokens := by
  rw [resolve]
  split <;> simp_all

/-- An expression of one operand has the outcome of the operand. -/
theorem evaluate_singleton (isOperand : Token.ofString name = .operand) :
    environment.evaluate [name] = environment.resolve [] name := by
  rw [evaluate, Expression.reduce_eq_run, Expression.run_operand isOperand]
  cases environment.resolve [] name <;> rfl

/-- A name with the same meaning in two environments has the same outcome in both if the tokens that
it is expanded to do. -/
theorem resolve_congr {other : Environment} (sameSystem : other.system = environment.system)
    (samePrevious : other.previous = environment.previous)
    (sameMeaning : other.meaning name = environment.meaning name)
    (sameTokens : ∀ lockTokens, environment.meaning name = .lock lockTokens → name ∉ chain →
      ∀ token ∈ lockTokens, Token.ofString token = .operand →
        other.resolve (chain ++ [name]) token = environment.resolve (chain ++ [name]) token) :
    other.resolve chain name = environment.resolve chain name := by
  cases means : environment.meaning name with
  | value value => rw [resolve_of_value means, resolve_of_value (sameMeaning.trans means)]
  | literal =>
      rw [resolve_of_literal means, resolve_of_literal (sameMeaning.trans means), sameSystem]
  | lock lockTokens =>
      by_cases repeated : name ∈ chain
      · rw [resolve_of_mem means repeated, resolve_of_mem (sameMeaning.trans means) repeated]
      · rw [resolve_of_notMem means repeated, resolve_of_notMem (sameMeaning.trans means) repeated,
          samePrevious]
        exact Expression.reduce_congr (sameTokens lockTokens means repeated)

theorem ofQuantity_ne_cyclicLock {α : Type} {result : Except QuantityError α} {name : String}
    {chain : List String} : EvalError.ofQuantity result ≠ .error (.cyclicLock name chain) := by
  cases result <;> simp [EvalError.ofQuantity]

end Environment

end Metrology

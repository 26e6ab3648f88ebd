import Metrology.Proofs.Expression.Resolution
import Metrology.Proofs.Quantity.Dimension

/-!
# Dimensional soundness of evaluation

The dimension of an expression can be found without its values: exponents, as integers without
bounds, are worked off on a stack of their own. `Checks` is this static machine. Where evaluation
gives a quantity, the static machine accepts the expression and finds exactly the exponents of that
quantity, so that no exponent has wrapped around and no sum anywhere has had operands of two
dimensions, not even in a lock or in a value that is dropped. Where the static machine accepts an
expression, its evaluation is never refused for a mismatch of dimensions.
-/

namespace Metrology

/-- The exponents of a result from those of the operands, where a sum or difference needs the same
exponents on both sides. -/
def BinaryOperator.combine? (operator : BinaryOperator) (left right : BaseUnit → Int) :
    Option (BaseUnit → Int) :=
  match operator with
  | plus | minus => if ∀ base, left base = right base then some left else none
  | times => some fun base => left base + right base
  | dividedBy => some fun base => left base - right base

namespace Environment

/-- A stack of exponents, the topmost first. -/
abbrev StaticStack := List (BaseUnit → Int)

/-- The exponents of an operand that is no lock. -/
def operandExponents? (environment : Environment) (token : String) : Option (BaseUnit → Int) :=
  match environment.meaning token with
  | .value quantity => some quantity.dimension.toInts
  | .literal =>
      (Quantity.parse environment.system token).toOption.map
        fun quantity => quantity.dimension.toInts
  | .lock _ => none

/-- A stack of exponents after one token that stands for no lock. -/
def checkStep? (environment : Environment) (stack : StaticStack) (token : String) :
    Option StaticStack :=
  match Token.ofString token, stack with
  | .binary operator, right :: left :: below => (operator.combine? left right).map (· :: below)
  | .previous, stack => some (environment.previous.dimension.toInts :: stack)
  | .negation, top :: below => some (top :: below)
  | .power written, top :: below =>
      (Decimal.readInt? 10 written).map fun power => (fun base => top base * power) :: below
  | .operand, stack => (environment.operandExponents? token).map (· :: stack)
  | _, _ => none

/-- What a run of tokens does to a stack of exponents. A lock has the exponents that its tokens
leave on top of a stack of their own. -/
inductive Checks (environment : Environment) : StaticStack → List String → StaticStack → Prop where
  | nil {stack : StaticStack} : Checks environment stack [] stack
  | step {stack next final : StaticStack} {token : String} {tokens : List String}
      (isNext : environment.checkStep? stack token = some next)
      (rest : Checks environment next tokens final) :
      Checks environment stack (token :: tokens) final
  | lock {stack final dropped : StaticStack} {token : String} {tokens lockTokens : List String}
      {exponents : BaseUnit → Int} (isToken : Token.ofString token = .operand)
      (means : environment.meaning token = .lock lockTokens)
      (inner : Checks environment [] lockTokens (exponents :: dropped))
      (rest : Checks environment (exponents :: stack) tokens final) :
      Checks environment stack (token :: tokens) final

/-- Whether an expression has given exponents by the static machine. -/
def HasExponents (environment : Environment) (tokens : List String)
    (exponents : BaseUnit → Int) : Prop :=
  ∃ dropped, environment.Checks [] tokens (exponents :: dropped)

def staticStack (stack : Stack) : StaticStack :=
  stack.map fun quantity => quantity.dimension.toInts

end Environment

variable {left right result : Quantity Float} {operator : BinaryOperator}

/-- Where an operation has a result, the result has the exponents that are found statically. -/
theorem BinaryOperator.combine?_of_apply (isResult : operator.apply left right = .ok result) :
    operator.combine? left.dimension.toInts right.dimension.toInts =
      some result.dimension.toInts := by
  cases operator with
  | plus =>
      rcases Quantity.dimension_of_add? isResult with ⟨same, isDimension⟩
      simp [combine?, same, isDimension]
  | minus =>
      rcases Quantity.dimension_of_sub? isResult with ⟨same, isDimension⟩
      simp [combine?, same, isDimension]
  | times =>
      rw [combine?, Option.some.injEq]
      exact (funext (Quantity.toInts_of_mul? isResult)).symm
  | dividedBy =>
      rw [combine?, Option.some.injEq]
      exact (funext (Quantity.toInts_of_div? isResult)).symm

/-- Where exponents are found statically, the operation does not fail for a mismatch. -/
theorem BinaryOperator.not_isMismatch_of_apply {exponents : BaseUnit → Int}
    {error : QuantityError}
    (combines : operator.combine? left.dimension.toInts right.dimension.toInts = some exponents)
    (isError : operator.apply left right = .error error) : ¬error.IsMismatch := by
  intro mismatch
  cases operator with
  | plus =>
      simp only [combine?, Option.ite_none_right_eq_some] at combines
      exact Quantity.dimension_ne_of_add? isError mismatch (Dimension.ext_toInt combines.1)
  | minus =>
      simp only [combine?, Option.ite_none_right_eq_some] at combines
      exact Quantity.dimension_ne_of_sub? isError mismatch (Dimension.ext_toInt combines.1)
  | times => exact Quantity.not_isMismatch_of_mul? isError mismatch
  | dividedBy => exact Quantity.not_isMismatch_of_div? isError mismatch

namespace Environment

variable {environment : Environment} {stack next : Stack} {token : String} {tokens : List String}
  {quantity : Quantity Float} {chain : List String}

/-- A step of the machine, where it is not an operand's, is one of the static machine. -/
theorem checkStep?_of_stepsTo {operand : String → Except EvalError (Quantity Float)}
    (steps : Expression.StepsTo operand environment.previous stack token next)
    (notOperand : Token.ofString token ≠ .operand) :
    environment.checkStep? (staticStack stack) token = some (staticStack next) := by
  cases steps with
  | binary isToken isResult =>
      simp [checkStep?, isToken, staticStack, BinaryOperator.combine?_of_apply isResult]
  | previous isToken => simp [checkStep?, isToken, staticStack]
  | negation isToken => simp [checkStep?, isToken, staticStack, Quantity.dimension_neg]
  | power isToken isExponent isResult =>
      have isPower := Decimal.readInt?_of_readInt32? isExponent
      simp [checkStep?, isToken, staticStack, isPower,
        ← funext (Quantity.toInts_of_pow? isResult)]
  | operand isToken _ => exact absurd isToken notOperand

/-- A run of the machine is one of the static machine, provided that every operand with a value puts
the exponents of this value on the static stack. -/
theorem checks_of_run {operand : String → Except EvalError (Quantity Float)} {final : Stack}
    (sound : ∀ token quantity, Token.ofString token = .operand → operand token = .ok quantity →
      ∀ stack tokens final, environment.Checks (quantity.dimension.toInts :: stack) tokens final →
        environment.Checks stack (token :: tokens) final)
    (isFinal : Expression.run operand environment.previous stack tokens = .ok final) :
    environment.Checks (staticStack stack) tokens (staticStack final) := by
  induction tokens generalizing stack with
  | nil =>
      cases isFinal
      exact .nil
  | cons token tokens ih =>
      rcases Expression.run_cons_eq_ok_iff.mp isFinal with ⟨next, steps, isRest⟩
      have rest := ih isRest
      by_cases isOperand : Token.ofString token = .operand
      · cases steps with
        | operand _ isValue => exact sound token _ isOperand isValue _ _ _ rest
        | _ => simp_all
      · exact .step (checkStep?_of_stepsTo steps isOperand) rest

/-- The value of an operand has the exponents that the operand puts on the static stack. -/
theorem checks_of_resolve (environment : Environment) (chain : List String) (name : String) :
    ∀ quantity, Token.ofString name = .operand → environment.resolve chain name = .ok quantity →
      ∀ stack tokens final, environment.Checks (quantity.dimension.toInts :: stack) tokens final →
        environment.Checks stack (name :: tokens) final := by
  induction chain, name using resolve.induct environment with
  | case1 chain name value means =>
      intro quantity isToken isValue stack tokens final rest
      rw [resolve_of_value means] at isValue
      cases isValue
      exact .step (by simp [checkStep?, isToken, operandExponents?, means]) rest
  | case2 chain name means =>
      intro quantity isToken isValue stack tokens final rest
      rw [resolve_of_literal means] at isValue
      cases isQuantity : Quantity.parse environment.system name with
      | error _ =>
          rw [isQuantity] at isValue
          cases isValue
      | ok parsed =>
          rw [isQuantity] at isValue
          cases isValue
          refine .step ?_ rest
          simp [checkStep?, isToken, operandExponents?, means, isQuantity, Except.toOption]
  | case3 chain name lockTokens means member =>
      intro quantity _ isValue
      rw [resolve_of_mem means member] at isValue
      cases isValue
  | case4 chain name lockTokens means fresh ih =>
      intro quantity isToken isValue stack tokens final rest
      rw [resolve_of_notMem means fresh] at isValue
      rcases Expression.reduce_eq_ok_iff.mp isValue with ⟨below, isFinal⟩
      exact .lock isToken means (checks_of_run ih isFinal) rest

theorem hasExponents_of_evaluate (isValue : environment.evaluate tokens = .ok quantity) :
    environment.HasExponents tokens quantity.dimension.toInts := by
  rcases Expression.reduce_eq_ok_iff.mp isValue with ⟨below, isFinal⟩
  exact ⟨staticStack below, checks_of_run (environment.checks_of_resolve []) isFinal⟩

/-- An operand with exponents has a value, with these exponents. -/
theorem exists_resolve_of_operandExponents? (chain : List String) {exponents : BaseUnit → Int}
    (isOperand : environment.operandExponents? token = some exponents) :
    ∃ quantity, environment.resolve chain token = .ok quantity ∧
      quantity.dimension.toInts = exponents := by
  unfold operandExponents? at isOperand
  split at isOperand
  · rename_i quantity means
    exact ⟨quantity, resolve_of_value means, Option.some.inj isOperand⟩
  · rename_i means
    rw [resolve_of_literal means]
    cases isQuantity : Quantity.parse environment.system token with
    | error _ =>
        rw [isQuantity] at isOperand
        cases isOperand
    | ok quantity =>
        rw [isQuantity] at isOperand
        exact ⟨quantity, rfl, Option.some.inj isOperand⟩
  · cases isOperand

/-- Where the static machine takes a step, a step of the machine leads to the same exponents. -/
theorem staticStack_of_stepsTo {static : StaticStack}
    (checked : environment.checkStep? (staticStack stack) token = some static)
    (steps : Expression.StepsTo (environment.resolve chain) environment.previous stack token next) :
    staticStack next = static := by
  by_cases isToken : Token.ofString token = .operand
  · cases steps with
    | operand _ isValue =>
        simp only [checkStep?, isToken, Option.map_eq_some_iff] at checked
        rcases checked with ⟨exponents, isOperand, rfl⟩
        rcases exists_resolve_of_operandExponents? chain isOperand with
          ⟨quantity, isQuantity, isExponents⟩
        rw [isValue, Except.ok.injEq] at isQuantity
        rw [isQuantity, ← isExponents]
        rfl
    | _ => simp_all
  · rw [checkStep?_of_stepsTo steps isToken, Option.some.injEq] at checked
    exact checked

/-- Where the static machine takes a step, the machine does not fail for a mismatch. -/
theorem not_isMismatch_of_stepFails {static : StaticStack} {error : QuantityError}
    (checked : environment.checkStep? (staticStack stack) token = some static)
    (fails : Expression.StepFails (environment.resolve chain) stack token (.quantity error)) :
    ¬error.IsMismatch := by
  cases fails with
  | binary isToken isError =>
      simp only [checkStep?, isToken, staticStack, List.map_cons, Option.map_eq_some_iff] at checked
      rcases checked with ⟨exponents, combines, _⟩
      exact BinaryOperator.not_isMismatch_of_apply combines isError
  | power _ _ isError => exact Quantity.not_isMismatch_of_pow? isError
  | operand isToken isError =>
      simp only [checkStep?, isToken, Option.map_eq_some_iff] at checked
      rcases checked with ⟨exponents, isOperand, _⟩
      rcases exists_resolve_of_operandExponents? chain isOperand with ⟨quantity, isQuantity, _⟩
      rw [isError] at isQuantity
      cases isQuantity

/-- Whether the outcome of a run is in keeping with a final static stack: a stack with the same
exponents, or an error that is no mismatch of dimensions. -/
structure Agrees (outcome : Except EvalError Stack) (static : StaticStack) : Prop where
  exponents : ∀ final, outcome = .ok final → staticStack final = static
  noMismatch : ∀ error, outcome = .error (.quantity error) → ¬error.IsMismatch

/-- The value on top of a stack has the topmost exponents. -/
theorem toInts_of_reduce {exponents : BaseUnit → Int} {dropped : StaticStack}
    (agrees : Agrees (Expression.run (environment.resolve chain) environment.previous [] tokens)
      (exponents :: dropped))
    (isValue : Expression.reduce (environment.resolve chain) environment.previous tokens =
      .ok quantity) : quantity.dimension.toInts = exponents := by
  rcases Expression.reduce_eq_ok_iff.mp isValue with ⟨below, isFinal⟩
  exact (List.cons.inj (agrees.exponents _ isFinal)).1

theorem not_isMismatch_of_reduce {static : StaticStack} {error : QuantityError}
    (agrees : Agrees (Expression.run (environment.resolve chain) environment.previous [] tokens)
      static)
    (isError : Expression.reduce (environment.resolve chain) environment.previous tokens =
      .error (.quantity error)) : ¬error.IsMismatch := by
  rcases Expression.reduce_eq_error_iff.mp isError with isError | ⟨_, isEmpty⟩
  · exact agrees.noMismatch error isError
  · cases isEmpty

/-- A run is in keeping with the static machine, whatever locks are in progress. -/
theorem agrees_of_checks {static final : StaticStack}
    (checks : environment.Checks static tokens final) :
    ∀ (chain : List String) (stack : Stack), staticStack stack = static →
      Agrees (Expression.run (environment.resolve chain) environment.previous stack tokens)
        final := by
  induction checks with
  | nil =>
      intro chain stack isStatic
      refine ⟨fun final isFinal => ?_, fun error isError => ?_⟩
      · cases isFinal
        exact isStatic
      · cases isError
  | @step static next final token tokens isNext _ ih =>
      intro chain stack isStatic
      subst isStatic
      rcases Expression.stepsTo_or_stepFails (environment.resolve chain) environment.previous stack
        token with ⟨after, steps⟩ | ⟨error, fails⟩
      · rw [Expression.run_cons_of_stepsTo steps]
        exact ih chain after (staticStack_of_stepsTo isNext steps)
      · rw [Expression.run_cons_of_stepFails fails]
        refine ⟨fun final isFinal => ?_, fun mismatch isError => ?_⟩
        · cases isFinal
        · cases isError
          exact not_isMismatch_of_stepFails isNext fails
  | @lock static final dropped token tokens lockTokens exponents isToken means _ _ inner ih =>
      intro chain stack isStatic
      have innerAgrees := inner (chain ++ [token]) [] rfl
      rcases Expression.stepsTo_or_stepFails (environment.resolve chain) environment.previous stack
        token with ⟨after, steps⟩ | ⟨error, fails⟩
      · rw [Expression.run_cons_of_stepsTo steps]
        cases steps with
        | operand _ isValue =>
            refine ih chain _ ?_
            have fresh : token ∉ chain := by
              intro member
              rw [resolve_of_mem means member] at isValue
              cases isValue
            rw [resolve_of_notMem means fresh] at isValue
            rw [← isStatic, ← toInts_of_reduce innerAgrees isValue]
            rfl
        | _ => simp_all
      · rw [Expression.run_cons_of_stepFails fails]
        refine ⟨fun final isFinal => ?_, fun mismatch isError => ?_⟩
        · cases isFinal
        · cases isError
          cases fails with
          | operand _ isError =>
              by_cases member : token ∈ chain
              · rw [resolve_of_mem means member] at isError
                cases isError
              · rw [resolve_of_notMem means member] at isError
                exact not_isMismatch_of_reduce innerAgrees isError
          | _ => simp_all

theorem agrees_of_hasExponents {exponents : BaseUnit → Int}
    (has : environment.HasExponents tokens exponents) :
    ∃ dropped, Agrees
      (Expression.run (environment.resolve []) environment.previous [] tokens)
      (exponents :: dropped) := by
  rcases has with ⟨dropped, checks⟩
  exact ⟨dropped, agrees_of_checks checks [] [] rfl⟩

/-- Evaluation is dimensionally sound. The exponents of its result are the only ones that the static
machine finds, and an expression that the static machine accepts is never refused for a mismatch of
dimensions. -/
theorem evaluate_dimensionally_sound (environment : Environment) (tokens : List String) :
    (∀ quantity, environment.evaluate tokens = .ok quantity →
        ∀ exponents, environment.HasExponents tokens exponents ↔
          exponents = quantity.dimension.toInts) ∧
      ∀ exponents, environment.HasExponents tokens exponents →
        ∀ left right,
          environment.evaluate tokens ≠ .error (.quantity (.dimensionMismatch left right)) := by
  constructor
  · intro quantity isValue exponents
    constructor
    · intro has
      rcases agrees_of_hasExponents has with ⟨dropped, agrees⟩
      exact (toInts_of_reduce agrees isValue).symm
    · rintro rfl
      exact hasExponents_of_evaluate isValue
  · intro exponents has left right isError
    rcases agrees_of_hasExponents has with ⟨dropped, agrees⟩
    exact not_isMismatch_of_reduce agrees isError ⟨left, right, rfl⟩

end Environment

end Metrology

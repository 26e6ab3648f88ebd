import Metrology.Expression.Evaluation

/-!
# Steps of the stack machine

`Expression.step` reads one token. This file says once and for all what it can do: `StepsTo` has one
case for each way in which a token changes the stack, and `StepFails` one for each way in which it
cannot. Runs of tokens are then taken apart step by step, and later arguments about expressions go
by these cases and never open the machine itself.
-/

namespace Metrology.Expression

variable {operand : String → Except EvalError (Quantity Float)} {previous : Quantity Float}
  {stack next final : Stack} {token : String} {tokens : List String} {error : EvalError}
  {value : Quantity Float}

/-- The ways in which a token turns one stack into another. -/
inductive StepsTo (operand : String → Except EvalError (Quantity Float))
    (previous : Quantity Float) : Stack → String → Stack → Prop where
  | binary {token : String} {operator : BinaryOperator} {left right result : Quantity Float}
      {below : Stack} (isToken : Token.ofString token = .binary operator)
      (isResult : operator.apply left right = .ok result) :
      StepsTo operand previous (right :: left :: below) token (result :: below)
  | previous {token : String} {stack : Stack} (isToken : Token.ofString token = .previous) :
      StepsTo operand previous stack token (previous :: stack)
  | negation {token : String} {top : Quantity Float} {below : Stack}
      (isToken : Token.ofString token = .negation) :
      StepsTo operand previous (top :: below) token (top.neg :: below)
  | power {token : String} {written : List Char} {exponent : Int32} {top result : Quantity Float}
      {below : Stack} (isToken : Token.ofString token = .power written)
      (isExponent : Decimal.readInt32? 10 written = some exponent)
      (isResult : top.pow? exponent = .ok result) :
      StepsTo operand previous (top :: below) token (result :: below)
  | operand {token : String} {stack : Stack} {value : Quantity Float}
      (isToken : Token.ofString token = .operand) (isValue : operand token = .ok value) :
      StepsTo operand previous stack token (value :: stack)

/-- The ways in which a token fails on a stack. -/
inductive StepFails (operand : String → Except EvalError (Quantity Float)) :
    Stack → String → EvalError → Prop where
  | binaryUnderflow {token : String} {operator : BinaryOperator} {stack : Stack}
      (isToken : Token.ofString token = .binary operator) (short : stack.length < 2) :
      StepFails operand stack token (.stackUnderflow token)
  | binary {token : String} {operator : BinaryOperator} {left right : Quantity Float}
      {below : Stack} {error : QuantityError} (isToken : Token.ofString token = .binary operator)
      (isError : operator.apply left right = .error error) :
      StepFails operand (right :: left :: below) token (.quantity error)
  | negationUnderflow {token : String} (isToken : Token.ofString token = .negation) :
      StepFails operand [] token (.stackUnderflow token)
  | invalidPower {token : String} {written : List Char} {stack : Stack}
      (isToken : Token.ofString token = .power written)
      (noExponent : Decimal.readInt32? 10 written = none) :
      StepFails operand stack token (.invalidPower token)
  | powerUnderflow {token : String} {written : List Char} {exponent : Int32}
      (isToken : Token.ofString token = .power written)
      (isExponent : Decimal.readInt32? 10 written = some exponent) :
      StepFails operand [] token (.stackUnderflow token)
  | power {token : String} {written : List Char} {exponent : Int32} {top : Quantity Float}
      {below : Stack} {error : QuantityError} (isToken : Token.ofString token = .power written)
      (isExponent : Decimal.readInt32? 10 written = some exponent)
      (isError : top.pow? exponent = .error error) :
      StepFails operand (top :: below) token (.quantity error)
  | operand {token : String} {stack : Stack} {error : EvalError}
      (isToken : Token.ofString token = .operand) (isError : operand token = .error error) :
      StepFails operand stack token error

theorem step_of_stepsTo (steps : StepsTo operand previous stack token next) :
    step operand previous stack token = .ok next := by
  cases steps with
  | binary isToken isResult =>
      simp only [step, isToken, isResult]
      rfl
  | previous isToken =>
      simp only [step, isToken]
      rfl
  | negation isToken =>
      simp only [step, isToken]
      rfl
  | power isToken isExponent isResult =>
      simp only [step, isToken, isExponent, isResult]
      rfl
  | operand isToken isValue =>
      simp only [step, isToken, isValue]
      rfl

theorem step_of_stepFails (fails : StepFails operand stack token error) :
    step operand previous stack token = .error error := by
  cases fails with
  | binaryUnderflow isToken short =>
      simp only [step, isToken]
      match stack, short with
      | [], _ => rfl
      | [_], _ => rfl
  | binary isToken isError =>
      simp only [step, isToken, isError]
      rfl
  | negationUnderflow isToken =>
      simp only [step, isToken]
      rfl
  | invalidPower isToken noExponent =>
      simp only [step, isToken, noExponent]
      rfl
  | powerUnderflow isToken isExponent =>
      simp only [step, isToken, isExponent]
      rfl
  | power isToken isExponent isError =>
      simp only [step, isToken, isExponent, isError]
      rfl
  | operand isToken isError =>
      simp only [step, isToken, isError]
      rfl

/-- A token either turns a stack into another one or fails on it. -/
theorem stepsTo_or_stepFails (operand : String → Except EvalError (Quantity Float))
    (previous : Quantity Float) (stack : Stack) (token : String) :
    (∃ next, StepsTo operand previous stack token next) ∨
      ∃ error, StepFails operand stack token error := by
  cases isToken : Token.ofString token with
  | binary operator =>
      match stack with
      | [] => exact .inr ⟨_, .binaryUnderflow isToken (by simp)⟩
      | [_] => exact .inr ⟨_, .binaryUnderflow isToken (by simp)⟩
      | right :: left :: below =>
          cases isResult : operator.apply left right with
          | ok result => exact .inl ⟨_, .binary isToken isResult⟩
          | error error => exact .inr ⟨_, .binary isToken isResult⟩
  | previous => exact .inl ⟨_, .previous isToken⟩
  | negation =>
      cases stack with
      | nil => exact .inr ⟨_, .negationUnderflow isToken⟩
      | cons top below => exact .inl ⟨_, .negation isToken⟩
  | power written =>
      cases isExponent : Decimal.readInt32? 10 written with
      | none => exact .inr ⟨_, .invalidPower isToken isExponent⟩
      | some exponent =>
          cases stack with
          | nil => exact .inr ⟨_, .powerUnderflow isToken isExponent⟩
          | cons top below =>
              cases isResult : top.pow? exponent with
              | ok result => exact .inl ⟨_, .power isToken isExponent isResult⟩
              | error error => exact .inr ⟨_, .power isToken isExponent isResult⟩
  | operand =>
      cases isValue : operand token with
      | ok value => exact .inl ⟨_, .operand isToken isValue⟩
      | error error => exact .inr ⟨_, .operand isToken isValue⟩

theorem step_eq_ok_iff :
    step operand previous stack token = .ok next ↔
      StepsTo operand previous stack token next := by
  refine ⟨fun isOk => ?_, step_of_stepsTo⟩
  rcases stepsTo_or_stepFails operand previous stack token with ⟨other, steps⟩ | ⟨error, fails⟩
  · rw [step_of_stepsTo steps, Except.ok.injEq] at isOk
    exact isOk ▸ steps
  · rw [step_of_stepFails fails] at isOk
    cases isOk

theorem step_eq_error_iff :
    step operand previous stack token = .error error ↔ StepFails operand stack token error := by
  refine ⟨fun isError => ?_, step_of_stepFails⟩
  rcases stepsTo_or_stepFails operand previous stack token with ⟨other, steps⟩ | ⟨other, fails⟩
  · rw [step_of_stepsTo steps] at isError
    cases isError
  · rw [step_of_stepFails fails, Except.error.injEq] at isError
    exact isError ▸ fails

def run (operand : String → Except EvalError (Quantity Float)) (previous : Quantity Float)
    (stack : Stack) (tokens : List String) : Except EvalError Stack :=
  tokens.foldlM (step operand previous) stack

theorem run_cons_of_stepsTo (steps : StepsTo operand previous stack token next) :
    run operand previous stack (token :: tokens) = run operand previous next tokens := by
  rw [run, List.foldlM_cons, step_of_stepsTo steps]
  rfl

theorem run_cons_of_stepFails (fails : StepFails operand stack token error) :
    run operand previous stack (token :: tokens) = .error error := by
  rw [run, List.foldlM_cons, step_of_stepFails fails]
  rfl

theorem run_cons_eq_ok_iff :
    run operand previous stack (token :: tokens) = .ok final ↔
      ∃ next, StepsTo operand previous stack token next ∧
        run operand previous next tokens = .ok final := by
  constructor
  · intro isFinal
    rcases stepsTo_or_stepFails operand previous stack token with ⟨next, steps⟩ | ⟨error, fails⟩
    · rw [run_cons_of_stepsTo steps] at isFinal
      exact ⟨next, steps, isFinal⟩
    · rw [run_cons_of_stepFails fails] at isFinal
      cases isFinal
  · rintro ⟨next, steps, isFinal⟩
    rw [run_cons_of_stepsTo steps, isFinal]

theorem run_cons_eq_error_iff :
    run operand previous stack (token :: tokens) = .error error ↔
      StepFails operand stack token error ∨
        ∃ next, StepsTo operand previous stack token next ∧
          run operand previous next tokens = .error error := by
  constructor
  · intro isError
    rcases stepsTo_or_stepFails operand previous stack token with ⟨next, steps⟩ | ⟨other, fails⟩
    · rw [run_cons_of_stepsTo steps] at isError
      exact .inr ⟨next, steps, isError⟩
    · rw [run_cons_of_stepFails fails, Except.error.injEq] at isError
      exact .inl (isError ▸ fails)
  · rintro (fails | ⟨next, steps, isError⟩)
    · exact run_cons_of_stepFails fails
    · rw [run_cons_of_stepsTo steps, isError]

/-- The value of an expression is what lies on top after a run on the empty stack. -/
theorem reduce_eq_run :
    reduce operand previous tokens = run operand previous [] tokens >>= top := rfl

theorem reduce_eq_ok_iff :
    reduce operand previous tokens = .ok value ↔
      ∃ below, run operand previous [] tokens = .ok (value :: below) := by
  rw [reduce_eq_run]
  cases run operand previous [] tokens with
  | error _ => simp [bind, Except.bind]
  | ok final => cases final <;> simp [bind, Except.bind, top]

theorem reduce_eq_error_iff :
    reduce operand previous tokens = .error error ↔
      run operand previous [] tokens = .error error ∨
        run operand previous [] tokens = .ok [] ∧ error = .emptyExpression := by
  rw [reduce_eq_run]
  cases run operand previous [] tokens with
  | error _ => simp [bind, Except.bind]
  | ok final => cases final <;> simp [bind, Except.bind, top, eq_comm]

end Metrology.Expression

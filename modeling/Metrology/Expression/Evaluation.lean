import Metrology.Constants.Basic
import Metrology.Decimal.Integer
import Metrology.Expression.Token
import Metrology.Quantity.Literal
import Metrology.Store.Basic

/-!
# Evaluation of expressions

An expression is worked off from left to right on a stack of quantities, and its value is what lies
on top at the end. `reduce` is this machine for any meaning of operands.

The meaning of an operand is that of a constant, else of a label, else of a lock, else of a literal.
A lock is evaluated on a stack of its own whenever it is met. The names of the locks that are being
expanded form a chain, and a lock that is met again within its own expansion is an error. This is
also why evaluation ends: every expansion adds a lock to the chain that was not in it.
-/

namespace Metrology

/-- The reasons for which an expression has no value. -/
inductive EvalError where
  | stackUnderflow (operator : String)
  | emptyExpression
  /-- A lock reaches itself; the chain leads from the first lock expanded to the repeated one. -/
  | cyclicLock (name : String) (chain : List String)
  /-- What follows a caret is no 32-bit integer. -/
  | invalidPower (token : String)
  | quantity (error : QuantityError)
deriving DecidableEq, Repr

namespace EvalError

def message : EvalError → String
  | stackUnderflow operator =>
      "Not enough values for \"" ++ operator ++
        "\" (make sure all operations have the required number of inputs)"
  | emptyExpression => "Empty expression"
  | cyclicLock name chain =>
      "Cyclic lock reference to \"" ++ name ++ "\" (" ++ String.intercalate " -> " chain ++ ")"
  | invalidPower token => "Invalid power \"" ++ token ++ "\""
  | quantity error => error.message

/-- The result of an operation on quantities, with its error as one of evaluation. -/
def ofQuantity {α : Type} : Except QuantityError α → Except EvalError α
  | .ok result => .ok result
  | .error error => .error (.quantity error)

end EvalError

/-- A stack of quantities, the topmost first. -/
abbrev Stack := List (Quantity Float)

/-- The operation of an operator that takes two operands. -/
def BinaryOperator.apply (operator : BinaryOperator) (left right : Quantity Float) :
    Except QuantityError (Quantity Float) :=
  match operator with
  | plus => left.add? right
  | minus => left.sub? right
  | times => left.mul? right
  | dividedBy => left.div? right

namespace Expression

/-- The stack after one token, where `operand` gives the value of an operand. -/
def step (operand : String → Except EvalError (Quantity Float)) (previous : Quantity Float)
    (stack : Stack) (token : String) : Except EvalError Stack :=
  match Token.ofString token with
  | .binary operator =>
      match stack with
      | right :: left :: below => do
          let result ← EvalError.ofQuantity (operator.apply left right)
          return result :: below
      | _ => throw (.stackUnderflow token)
  | .previous => return previous :: stack
  | .negation =>
      match stack with
      | top :: below => return top.neg :: below
      | [] => throw (.stackUnderflow token)
  | .power written =>
      match Decimal.readInt32? 10 written with
      | none => throw (.invalidPower token)
      | some exponent =>
          match stack with
          | top :: below => do
              let result ← EvalError.ofQuantity (top.pow? exponent)
              return result :: below
          | [] => throw (.stackUnderflow token)
  | .operand => do
      let value ← operand token
      return value :: stack

def top : Stack → Except EvalError (Quantity Float)
  | value :: _ => .ok value
  | [] => .error .emptyExpression

/-- The value of an expression, where `operand` gives the value of an operand. Values that are left
below the topmost one are dropped. -/
def reduce (operand : String → Except EvalError (Quantity Float)) (previous : Quantity Float)
    (tokens : List String) : Except EvalError (Quantity Float) :=
  tokens.foldlM (step operand previous) [] >>= top

end Expression

/-- All that the value of an expression depends on. -/
structure Environment where
  system : UnitSystem
  constants : Constants
  store : Store
  /-- The previous answer. -/
  previous : Quantity Float

/-- What an operand stands for. -/
inductive Meaning where
  | value (quantity : Quantity Float)
  | lock (tokens : List String)
  /-- No stored name, so a literal. -/
  | literal

namespace Environment

/-- What an operand stands for. Constants come before stored names. -/
def meaning (environment : Environment) (name : String) : Meaning :=
  match environment.constants.get? name, environment.store.get? name with
  | some quantity, _ => .value quantity
  | none, some (.label quantity) => .value quantity
  | none, some (.lock tokens) => .lock tokens
  | none, none => .literal

/-- The number of locks that are not being expanded. -/
def unexpanded (environment : Environment) (chain : List String) : Nat :=
  environment.store.locks.countP fun lock => !chain.contains lock.1

/-- A name that means a lock is among the locks of the store. -/
theorem mem_locks_of_meaning {environment : Environment} {name : String} {tokens : List String}
    (means : environment.meaning name = .lock tokens) :
    (name, tokens) ∈ environment.store.locks := by
  have found : environment.store.get? name = some (.lock tokens) := by
    unfold meaning at means
    split at means <;> simp_all
  exact Std.TreeMap.mem_toList_iff_getElem?_eq_some.mpr (Store.lock?_eq_some_iff.mpr found)

/-- A predicate that some member loses, and none gains, holds of fewer members. -/
theorem countP_lt_of_imp {α : Type} {weaker stronger : α → Bool} {members : List α} {lost : α}
    (implies : ∀ member ∈ members, stronger member = true → weaker member = true)
    (member : lost ∈ members) (holds : weaker lost = true) (fails : stronger lost = false) :
    members.countP stronger < members.countP weaker := by
  obtain ⟨before, after, rfl⟩ := List.append_of_mem member
  have inBefore := List.countP_mono_left fun other inside =>
    implies other (List.mem_append_left _ inside)
  have inAfter := List.countP_mono_left fun other inside =>
    implies other (List.mem_append_right before (List.mem_cons_of_mem lost inside))
  simp only [List.countP_append, List.countP_cons, holds, fails]
  simp only [Bool.false_eq_true, if_false, if_true]
  omega

/-- Expanding a lock that is not in the chain leaves fewer locks to expand. -/
theorem unexpanded_append_lt {environment : Environment} {chain : List String} {name : String}
    {tokens : List String} (means : environment.meaning name = .lock tokens)
    (fresh : name ∉ chain) :
    environment.unexpanded (chain ++ [name]) < environment.unexpanded chain :=
  countP_lt_of_imp (fun lock _ free => by simp_all) (mem_locks_of_meaning means)
    (by simpa using fresh) (by simp)

/-- The value of an operand within the expansions of a chain of locks. -/
def resolve (environment : Environment) (chain : List String) (name : String) :
    Except EvalError (Quantity Float) :=
  match _ : environment.meaning name with
  | .value quantity => .ok quantity
  | .literal => EvalError.ofQuantity (Quantity.parse environment.system name)
  | .lock tokens =>
      if _ : name ∈ chain then .error (.cyclicLock name (chain ++ [name]))
      else
        Expression.reduce (fun token => environment.resolve (chain ++ [name]) token)
          environment.previous tokens
termination_by environment.unexpanded chain
decreasing_by exact unexpanded_append_lt ‹_› ‹_›

/-- The value of an expression. -/
def evaluate (environment : Environment) (tokens : List String) :
    Except EvalError (Quantity Float) :=
  Expression.reduce (environment.resolve []) environment.previous tokens

end Environment

end Metrology

import Mathlib.Data.List.Induction
import Metrology.Proofs.Expression.Resolution

/-!
# Expressions as trees

Postfix notation writes trees of operations without parentheses: every node comes after its
operands. This file proves that the stack machine computes what such trees mean. The value of a tree
is that of its left part, then that of its right part, then the operation on both, and the first of
these to fail gives the error. A list of tokens has a value just if it is a row of trees that all
have one, and its value is that of the last tree. No list of tokens is a row of trees in two ways.

Every tree that is complete is one value on the stack. `StackUp` says which trees the values of a
stack belong to. A token that the machine can work off completes one more tree, out of the topmost
ones, so a run that comes to its end has found the trees that the list of tokens is made of.
-/

namespace Metrology

namespace Expression

/-- An expression as a tree. Every node keeps the token that it is written as. -/
inductive Tree where
  | operand (token : String) (isToken : Token.ofString token = .operand)
  | previous (token : String) (isToken : Token.ofString token = .previous)
  | negation (token : String) (isToken : Token.ofString token = .negation) (argument : Tree)
  /-- A power; the token may have no exponent that can be read, and the tree has no value then. -/
  | power (token : String) {written : List Char} (isToken : Token.ofString token = .power written)
      (base : Tree)
  | binary (token : String) {operator : BinaryOperator}
      (isToken : Token.ofString token = .binary operator) (left right : Tree)

namespace Tree

/-- The tokens of a tree in postfix notation. -/
def tokens : Tree → List String
  | operand token _ => [token]
  | previous token _ => [token]
  | negation token _ argument => argument.tokens ++ [token]
  | power token _ base => base.tokens ++ [token]
  | binary token _ left right => left.tokens ++ right.tokens ++ [token]

/-- The tokens of a row of trees, one tree after the other. -/
def tokensOf (trees : List Tree) : List String :=
  trees.flatMap tokens

/-- A quantity raised to a written power. -/
def raise (token : String) (written : List Char) (quantity : Quantity Float) :
    Except EvalError (Quantity Float) :=
  match Decimal.readInt32? 10 written with
  | none => .error (.invalidPower token)
  | some exponent => EvalError.ofQuantity (quantity.pow? exponent)

/-- The value of a tree, where `operand` gives the value of an operand. -/
def value (operand : String → Except EvalError (Quantity Float)) (previous : Quantity Float) :
    Tree → Except EvalError (Quantity Float)
  | .operand token _ => operand token
  | .previous _ _ => .ok previous
  | .negation _ _ argument => do
      let quantity ← argument.value operand previous
      return quantity.neg
  | @power token written _ base => do
      let quantity ← base.value operand previous
      raise token written quantity
  | @binary _ operator _ left right => do
      let leftQuantity ← left.value operand previous
      let rightQuantity ← right.value operand previous
      EvalError.ofQuantity (operator.apply leftQuantity rightQuantity)

end Tree

variable {operand : String → Except EvalError (Quantity Float)} {previous quantity : Quantity Float}
  {stack next final : Stack} {tokens rest : List String} {token : String} {error : EvalError}

theorem run_append :
    run operand previous stack (tokens ++ rest) =
      (run operand previous stack tokens >>= fun next => run operand previous next rest) :=
  List.foldlM_append

theorem run_append_of_ok (isNext : run operand previous stack tokens = .ok next) :
    run operand previous stack (tokens ++ rest) = run operand previous next rest := by
  rw [run_append, isNext]
  rfl

theorem run_append_of_error (isError : run operand previous stack tokens = .error error) :
    run operand previous stack (tokens ++ rest) = .error error := by
  rw [run_append, isError]
  rfl

theorem run_power {written : List Char} (isToken : Token.ofString token = .power written) :
    run operand previous (quantity :: stack) [token] =
      (Tree.raise token written quantity).map fun result => result :: stack := by
  unfold Tree.raise
  cases isExponent : Decimal.readInt32? 10 written with
  | none => exact run_cons_of_stepFails (.invalidPower isToken isExponent)
  | some exponent =>
      cases isResult : quantity.pow? exponent with
      | error error =>
          rw [run_cons_of_stepFails (.power isToken isExponent isResult)]
          simp only [isResult]
          rfl
      | ok result =>
          rw [run_cons_of_stepsTo (.power isToken isExponent isResult)]
          simp only [isResult]
          rfl

theorem run_binary {operator : BinaryOperator} {left right : Quantity Float}
    (isToken : Token.ofString token = .binary operator) :
    run operand previous (right :: left :: stack) [token] =
      (EvalError.ofQuantity (operator.apply left right)).map fun result => result :: stack := by
  cases isResult : operator.apply left right with
  | error error => exact run_cons_of_stepFails (.binary isToken isResult)
  | ok result => exact run_cons_of_stepsTo (.binary isToken isResult)

namespace Tree

/-- The tokens of a tree put its value on the stack, or fail as the tree does. -/
theorem run_tokens (tree : Tree) (stack : Stack) :
    run operand previous stack tree.tokens =
      (tree.value operand previous).map fun quantity => quantity :: stack := by
  induction tree generalizing stack with
  | operand token isToken =>
      cases isValue : operand token with
      | error error =>
          rw [tokens, run_cons_of_stepFails (.operand isToken isValue), value, isValue]
          rfl
      | ok quantity =>
          rw [tokens, run_cons_of_stepsTo (.operand isToken isValue), value, isValue]
          rfl
  | previous token isToken => exact run_cons_of_stepsTo (.previous isToken)
  | negation token isToken argument ih =>
      rw [tokens, run_append, ih, value]
      cases argument.value operand previous with
      | error error => rfl
      | ok quantity => exact run_cons_of_stepsTo (.negation isToken)
  | power token isToken base ih =>
      rw [tokens, run_append, ih, value]
      cases base.value operand previous with
      | error error => rfl
      | ok quantity => exact run_power isToken
  | binary token isToken left right leftIh rightIh =>
      rw [tokens, List.append_assoc, run_append, leftIh, value]
      cases left.value operand previous with
      | error error => rfl
      | ok leftQuantity =>
          change run operand previous (leftQuantity :: stack) (right.tokens ++ [token]) = _
          rw [run_append, rightIh]
          cases right.value operand previous with
          | error error => rfl
          | ok rightQuantity => exact run_binary isToken

variable {tree : Tree} {trees others below : List Tree}

/-- Whether a tree has a value. -/
def HasValue (operand : String → Except EvalError (Quantity Float)) (previous : Quantity Float)
    (tree : Tree) : Prop :=
  ∃ quantity, tree.value operand previous = .ok quantity

theorem tokensOf_append (trees others : List Tree) :
    tokensOf (trees ++ others) = tokensOf trees ++ tokensOf others :=
  List.flatMap_append

theorem tokensOf_singleton (tree : Tree) : tokensOf [tree] = tree.tokens := by
  simp [tokensOf]

/-- A row of trees that all have a value runs to its end. -/
theorem exists_run_tokensOf (haveValues : ∀ tree ∈ trees, tree.HasValue operand previous) :
    ∃ next, run operand previous stack (tokensOf trees) = .ok next := by
  induction trees generalizing stack with
  | nil => exact ⟨stack, rfl⟩
  | cons tree trees ih =>
      rcases haveValues tree (by simp) with ⟨quantity, isValue⟩
      have isTree : run operand previous stack tree.tokens = .ok (quantity :: stack) := by
        rw [run_tokens, isValue]
        rfl
      have haveOtherValues : ∀ other ∈ trees, other.HasValue operand previous :=
        fun other member => haveValues other (List.mem_cons_of_mem tree member)
      rcases ih haveOtherValues with ⟨next, isNext⟩
      refine ⟨next, ?_⟩
      change run operand previous stack (tree.tokens ++ tokensOf trees) = .ok next
      rw [run_append_of_ok isTree, isNext]

/-- A row of trees that all have a value has the value of the last one. -/
theorem reduce_tokensOf_of_value (haveValues : ∀ tree ∈ trees, tree.HasValue operand previous)
    (isValue : tree.value operand previous = .ok quantity) :
    reduce operand previous (tokensOf (trees ++ [tree])) = .ok quantity := by
  rcases exists_run_tokensOf haveValues with ⟨next, isNext⟩
  refine reduce_eq_ok_iff.mpr ⟨next, ?_⟩
  rw [tokensOf_append, tokensOf_singleton, run_append_of_ok isNext, run_tokens, isValue]
  rfl

/-- A row of trees fails as the first tree does that has no value. -/
theorem reduce_tokensOf_of_error (haveValues : ∀ tree ∈ trees, tree.HasValue operand previous)
    (isError : tree.value operand previous = .error error) :
    reduce operand previous (tokensOf (trees ++ tree :: others)) = .error error := by
  rcases exists_run_tokensOf haveValues with ⟨next, isNext⟩
  refine reduce_eq_error_iff.mpr (.inl ?_)
  have isTree : run operand previous next tree.tokens = .error error := by
    rw [run_tokens, isError]
    rfl
  change run operand previous [] (tokensOf (trees ++ ([tree] ++ others))) = .error error
  rw [tokensOf_append, tokensOf_append, tokensOf_singleton, run_append_of_ok isNext,
    run_append_of_error isTree]

/-- What the last token of a tree does. -/
def root : Tree → Token
  | .operand _ _ => .operand
  | .previous _ _ => .previous
  | .negation _ _ _ => .negation
  | @power _ written _ _ => .power written
  | @binary _ operator _ _ _ => .binary operator

theorem getLast?_tokens (tree : Tree) :
    tree.tokens.getLast?.map Token.ofString = some tree.root := by
  cases tree <;> simp [tokens, root, *]

theorem getLast?_append_tokens (front : List String) (tree : Tree) :
    (front ++ tree.tokens).getLast?.map Token.ofString = some tree.root := by
  rw [List.getLast?_append]
  have isLast := tree.getLast?_tokens
  cases last : tree.tokens.getLast? with
  | none => simp [last] at isLast
  | some token => simpa [last] using isLast

theorem root_eq_of_append_tokens {other : Tree} {front otherFront : List String}
    (same : front ++ tree.tokens = otherFront ++ other.tokens) : tree.root = other.root := by
  rw [← Option.some.injEq, ← getLast?_append_tokens front, same, getLast?_append_tokens]

/-- A list of tokens ends in at most one tree. -/
theorem eq_of_append_tokens {other : Tree} {front otherFront : List String}
    (same : front ++ tree.tokens = otherFront ++ other.tokens) :
    front = otherFront ∧ tree = other := by
  -- The last token gives the kind of the node. Its operands are then compared from the right.
  induction tree generalizing front otherFront other with
  | operand token isToken =>
      have sameRoot := root_eq_of_append_tokens same
      cases other with
      | operand otherToken _ =>
          rcases List.append_inj' same rfl with ⟨sameFront, sameToken⟩
          cases sameToken
          exact ⟨sameFront, rfl⟩
      | _ => cases sameRoot
  | previous token isToken =>
      have sameRoot := root_eq_of_append_tokens same
      cases other with
      | previous otherToken _ =>
          rcases List.append_inj' same rfl with ⟨sameFront, sameToken⟩
          cases sameToken
          exact ⟨sameFront, rfl⟩
      | _ => cases sameRoot
  | negation token isToken argument ih =>
      have sameRoot := root_eq_of_append_tokens same
      cases other with
      | negation otherToken _ otherArgument =>
          simp only [tokens, ← List.append_assoc] at same
          rcases List.append_inj' same rfl with ⟨sameArgument, sameToken⟩
          cases sameToken
          rcases ih sameArgument with ⟨sameFront, rfl⟩
          exact ⟨sameFront, rfl⟩
      | _ => cases sameRoot
  | power token isToken base ih =>
      have sameRoot := root_eq_of_append_tokens same
      cases other with
      | power otherToken _ otherBase =>
          simp only [tokens, ← List.append_assoc] at same
          rcases List.append_inj' same rfl with ⟨sameBase, sameToken⟩
          cases sameToken
          cases sameRoot
          rcases ih sameBase with ⟨sameFront, rfl⟩
          exact ⟨sameFront, rfl⟩
      | _ => cases sameRoot
  | binary token isToken left right leftIh rightIh =>
      have sameRoot := root_eq_of_append_tokens same
      cases other with
      | binary otherToken _ otherLeft otherRight =>
          simp only [tokens, ← List.append_assoc] at same
          rcases List.append_inj' same rfl with ⟨sameArguments, sameToken⟩
          cases sameToken
          cases sameRoot
          rcases rightIh sameArguments with ⟨sameLeft, rfl⟩
          rcases leftIh sameLeft with ⟨sameFront, rfl⟩
          exact ⟨sameFront, rfl⟩
      | _ => cases sameRoot

theorem tokens_ne_nil (tree : Tree) : tree.tokens ≠ [] := by
  cases tree <;> simp [tokens]

/-- The tokens that are trees by themselves are those that are no operator and do not begin with a
caret. -/
theorem exists_tokens_eq_singleton_iff :
    (∃ tree : Tree, tree.tokens = [token]) ↔
      token ∉ ["+", "-", "*", "x", "/", "neg"] ∧ token.toList.head? ≠ some '^' := by
  constructor
  · rintro ⟨tree, isLeaf⟩
    cases tree with
    | operand _ isToken =>
        cases isLeaf
        rcases Token.ofString_eq_operand_iff.mp isToken with ⟨notReserved, noCaret⟩
        exact ⟨by simp_all, noCaret⟩
    | previous _ isToken =>
        cases isLeaf
        rw [Token.ofString_eq_previous_iff.mp isToken]
        decide
    | negation _ _ argument => simp [tokens, List.append_eq_singleton_iff, tokens_ne_nil] at isLeaf
    | power _ _ base => simp [tokens, List.append_eq_singleton_iff, tokens_ne_nil] at isLeaf
    | binary _ _ left right => simp [tokens, List.append_eq_singleton_iff, tokens_ne_nil] at isLeaf
  · rintro ⟨noOperator, noCaret⟩
    by_cases isPrevious : token = "ans"
    · exact ⟨.previous token (Token.ofString_eq_previous_iff.mpr isPrevious), rfl⟩
    · exact ⟨.operand token (Token.ofString_eq_operand_iff.mpr ⟨by simp_all, noCaret⟩), rfl⟩

/-- A list of tokens is a row of trees in at most one way. -/
theorem tokensOf_injective : Function.Injective tokensOf := by
  intro trees others same
  induction trees using List.reverseRecOn generalizing others with
  | nil =>
      cases others with
      | nil => rfl
      | cons other others =>
          simp [tokensOf, tokens_ne_nil] at same
  | append_singleton trees tree ih =>
      rcases List.eq_nil_or_concat others with rfl | ⟨front, last, rfl⟩
      · simp [tokensOf, tokens_ne_nil] at same
      · simp only [List.concat_eq_append, tokensOf_append, tokensOf_singleton] at same
        rcases eq_of_append_tokens same with ⟨sameFront, rfl⟩
        rw [ih sameFront, List.concat_eq_append]

/-- Whether the values of trees make up a stack, the topmost tree first. -/
def StackUp (operand : String → Except EvalError (Quantity Float)) (previous : Quantity Float)
    (trees : List Tree) (stack : Stack) : Prop :=
  List.Forall₂ (fun tree quantity => tree.value operand previous = .ok quantity) trees stack

theorem StackUp.hasValue (stackUp : StackUp operand previous trees stack) :
    ∀ tree ∈ trees, tree.HasValue operand previous := by
  induction stackUp with
  | nil => simp
  | cons isValue _ ih => simpa using ⟨⟨_, isValue⟩, ih⟩

/-- A token that turns a stack into another one completes a tree. -/
theorem StackUp.exists_of_stepsTo (stackUp : StackUp operand previous trees stack)
    (steps : StepsTo operand previous stack token next) :
    ∃ others, StackUp operand previous others next ∧
      tokensOf others.reverse = tokensOf trees.reverse ++ [token] := by
  cases steps with
  | operand isToken isValue =>
      exact ⟨.operand token isToken :: trees, .cons isValue stackUp, by simp [tokensOf, tokens]⟩
  | previous isToken =>
      exact ⟨.previous token isToken :: trees, .cons rfl stackUp, by simp [tokensOf, tokens]⟩
  | negation isToken =>
      cases stackUp with
      | @cons argument _ below _ isArgument isBelow =>
          refine ⟨.negation token isToken argument :: below, .cons ?_ isBelow,
            by simp [tokensOf, tokens]⟩
          rw [value, isArgument]
          rfl
  | power isToken isExponent isResult =>
      cases stackUp with
      | @cons base _ below _ isBase isBelow =>
          refine ⟨.power token isToken base :: below, .cons ?_ isBelow, by simp [tokensOf, tokens]⟩
          rw [value, isBase]
          change raise _ _ _ = _
          simp only [raise, isExponent, isResult]
          rfl
  | binary isToken isResult =>
      cases stackUp with
      | @cons right _ _ _ isRight isBelow =>
          cases isBelow with
          | @cons left _ below _ isLeft isBelow =>
              refine ⟨.binary token isToken left right :: below, .cons ?_ isBelow,
                by simp [tokensOf, tokens]⟩
              rw [value, isLeft, isRight]
              change EvalError.ofQuantity _ = _
              rw [isResult]
              rfl

/-- A run that comes to its end has read a row of trees, and their values are on the stack. -/
theorem StackUp.exists_of_run (stackUp : StackUp operand previous trees stack)
    (isFinal : run operand previous stack tokens = .ok final) :
    ∃ others, StackUp operand previous others final ∧
      tokensOf others.reverse = tokensOf trees.reverse ++ tokens := by
  induction tokens generalizing stack trees with
  | nil =>
      cases isFinal
      exact ⟨trees, stackUp, by simp⟩
  | cons token tokens ih =>
      rcases run_cons_eq_ok_iff.mp isFinal with ⟨next, steps, isRest⟩
      rcases stackUp.exists_of_stepsTo steps with ⟨middle, isMiddle, middleTokens⟩
      rcases ih isMiddle isRest with ⟨others, isOthers, otherTokens⟩
      exact ⟨others, isOthers, by simp [otherTokens, middleTokens]⟩

theorem exists_trees_of_run (isFinal : run operand previous [] tokens = .ok final) :
    ∃ trees, StackUp operand previous trees final ∧ tokens = tokensOf trees.reverse := by
  rcases StackUp.exists_of_run .nil isFinal with ⟨trees, stackUp, isTokens⟩
  exact ⟨trees, stackUp, isTokens.symm⟩

/-- A list of tokens has a value just if it is a row of trees that all have one. -/
theorem reduce_eq_ok_iff_trees :
    reduce operand previous tokens = .ok quantity ↔
      ∃ front last, tokens = tokensOf (front ++ [last]) ∧
        (∀ tree ∈ front, tree.HasValue operand previous) ∧
        last.value operand previous = .ok quantity := by
  constructor
  · intro isValue
    rcases reduce_eq_ok_iff.mp isValue with ⟨below, isFinal⟩
    rcases exists_trees_of_run isFinal with ⟨trees, stackUp, rfl⟩
    cases stackUp with
    | @cons last _ others _ isLast isOthers =>
        refine ⟨others.reverse, last, by simp, ?_, isLast⟩
        simpa using StackUp.hasValue isOthers
  · rintro ⟨front, last, rfl, haveValues, isValue⟩
    exact reduce_tokensOf_of_value haveValues isValue

/-- An empty expression is reported for an empty list, and else only by an operand. -/
theorem exists_operand_of_run_eq_emptyExpression
    (isError : run operand previous stack tokens = .error .emptyExpression) :
    ∃ front token rest next, tokens = front ++ token :: rest ∧
      run operand previous stack front = .ok next ∧ Token.ofString token = .operand ∧
      operand token = .error .emptyExpression := by
  induction tokens generalizing stack with
  | nil => cases isError
  | cons first tokens ih =>
      rcases run_cons_eq_error_iff.mp isError with fails | ⟨middle, steps, isRest⟩
      · cases fails with
        | operand isToken isError => exact ⟨[], first, tokens, stack, rfl, rfl, isToken, isError⟩
      · rcases ih isRest with ⟨front, token, rest, next, rfl, isNext, isOperand⟩
        exact ⟨first :: front, token, rest, next, rfl, run_cons_eq_ok_iff.mpr ⟨_, steps, isNext⟩,
          isOperand⟩

theorem reduce_eq_emptyExpression_iff :
    reduce operand previous tokens = .error .emptyExpression ↔
      tokens = [] ∨ ∃ trees token rest, tokens = tokensOf trees ++ token :: rest ∧
        (∀ tree ∈ trees, tree.HasValue operand previous) ∧ Token.ofString token = .operand ∧
        operand token = .error .emptyExpression := by
  constructor
  · intro isError
    rcases reduce_eq_error_iff.mp isError with isError | ⟨isFinal, _⟩
    · rcases exists_operand_of_run_eq_emptyExpression isError with
        ⟨front, token, rest, next, rfl, isNext, isOperand⟩
      rcases exists_trees_of_run isNext with ⟨trees, stackUp, rfl⟩
      refine .inr ⟨trees.reverse, token, rest, rfl, ?_, isOperand⟩
      simpa using stackUp.hasValue
    · rcases exists_trees_of_run isFinal with ⟨trees, stackUp, rfl⟩
      cases stackUp
      exact .inl rfl
  · rintro (rfl | ⟨trees, token, rest, rfl, haveValues, isToken, isError⟩)
    · rfl
    · rcases exists_run_tokensOf haveValues with ⟨next, isNext⟩
      refine reduce_eq_error_iff.mpr (.inl ?_)
      rw [run_append_of_ok isNext, run_cons_of_stepFails (.operand isToken isError)]

end Tree

end Expression

namespace Environment

open Expression

variable {environment : Environment} {chain tokens : List String} {name : String}

/-- The value of an expression within the expansions of a chain of locks. -/
def evaluateWithin (environment : Environment) (chain tokens : List String) :
    Except EvalError (Quantity Float) :=
  reduce (environment.resolve chain) environment.previous tokens

/-- The value of a tree. -/
def treeValue (environment : Environment) (tree : Tree) : Except EvalError (Quantity Float) :=
  tree.value (environment.resolve []) environment.previous

theorem ofQuantity_ne_emptyExpression {α : Type} {result : Except QuantityError α} :
    EvalError.ofQuantity result ≠ .error .emptyExpression := by
  cases result <;> simp [EvalError.ofQuantity]

/-- An operand reports an empty expression just if it is a lock whose expansion does. -/
theorem resolve_eq_emptyExpression_iff :
    environment.resolve chain name = .error .emptyExpression ↔
      ∃ lockTokens, environment.meaning name = .lock lockTokens ∧ name ∉ chain ∧
        environment.evaluateWithin (chain ++ [name]) lockTokens = .error .emptyExpression := by
  constructor
  · intro isError
    cases means : environment.meaning name with
    | value quantity =>
        rw [resolve_of_value means] at isError
        cases isError
    | literal =>
        rw [resolve_of_literal means] at isError
        exact False.elim (ofQuantity_ne_emptyExpression isError)
    | lock lockTokens =>
        by_cases member : name ∈ chain
        · rw [resolve_of_mem means member] at isError
          cases isError
        · rw [resolve_of_notMem means member] at isError
          exact ⟨lockTokens, rfl, member, isError⟩
  · rintro ⟨lockTokens, means, fresh, isError⟩
    rw [resolve_of_notMem means fresh]
    exact isError

/-- The stack machine computes postfix trees. The leaves of trees are the tokens that are no
operator and do not begin with a caret. A list of tokens is a row of trees in at most one way, and
it has a value just if it is such a row in which every tree has a value: that of the last one. A row
in which some tree has no value fails as the first of these does. At every level of expansion an
empty expression is reported just for the empty list, or else by a lock among the tokens at the
level below. -/
theorem evaluate_postfix_trees (environment : Environment) (tokens : List String) :
    (∀ token, (∃ tree : Tree, tree.tokens = [token]) ↔
        token ∉ ["+", "-", "*", "x", "/", "neg"] ∧ token.toList.head? ≠ some '^') ∧
      Function.Injective Tree.tokensOf ∧
      (∀ quantity, environment.evaluate tokens = .ok quantity ↔
        ∃ front last, tokens = Tree.tokensOf (front ++ [last]) ∧
          (∀ tree ∈ front, ∃ value, environment.treeValue tree = .ok value) ∧
          environment.treeValue last = .ok quantity) ∧
      (∀ front failing rest error, tokens = Tree.tokensOf (front ++ failing :: rest) →
        (∀ tree ∈ front, ∃ value, environment.treeValue tree = .ok value) →
        environment.treeValue failing = .error error →
        environment.evaluate tokens = .error error) ∧
      ∀ chain inner, environment.evaluateWithin chain inner = .error .emptyExpression ↔
        inner = [] ∨ ∃ trees name rest, inner = Tree.tokensOf trees ++ name :: rest ∧
          (∀ tree ∈ trees, tree.HasValue (environment.resolve chain) environment.previous) ∧
          Token.ofString name = .operand ∧
          ∃ lockTokens, environment.meaning name = .lock lockTokens ∧ name ∉ chain ∧
            environment.evaluateWithin (chain ++ [name]) lockTokens = .error .emptyExpression := by
  refine ⟨fun token => Tree.exists_tokens_eq_singleton_iff, Tree.tokensOf_injective,
    fun quantity => Tree.reduce_eq_ok_iff_trees, ?_, ?_⟩
  · rintro front failing rest error rfl haveValues isError
    exact Tree.reduce_tokensOf_of_error haveValues isError
  · intro chain inner
    simp only [← resolve_eq_emptyExpression_iff]
    exact Tree.reduce_eq_emptyExpression_iff

end Environment

end Metrology

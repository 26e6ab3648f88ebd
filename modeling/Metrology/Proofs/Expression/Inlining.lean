import Metrology.Proofs.Expression.Caching
import Metrology.Proofs.Expression.Postfix

/-!
# Writing out a lock

A lock whose tokens make up one tree may be written out: an expression that names the lock has a
value just if the expression with the tokens of the lock in its place has one, and it is the same
value. The tokens are then read on the stack of the caller and with one lock less in progress. The
first does not matter, since a tree leaves what is below it on the stack alone. The second does not
matter where there is a value, since a cycle through the lock would be met either way.

The tokens of a lock in general need not be a tree. Its expansion has a stack of its own, though, so
it never takes anything from the stack of the caller.
-/

namespace Metrology

namespace Expression

variable {operand : String → Except EvalError (Quantity Float)} {previous quantity : Quantity Float}
  {stack final : Stack} {tokens rest : List String}

theorem run_append_eq_ok_iff :
    run operand previous stack (tokens ++ rest) = .ok final ↔
      ∃ next, run operand previous stack tokens = .ok next ∧
        run operand previous next rest = .ok final := by
  rw [run_append]
  cases run operand previous stack tokens <;> simp [bind, Except.bind]

/-- The value of an expression depends on a part of it only by what the part does to stacks. -/
theorem reduce_eq_ok_of_run_imp {part other before after : List String}
    (implies : ∀ stack next, run operand previous stack part = .ok next →
      run operand previous stack other = .ok next)
    (isValue : reduce operand previous (before ++ part ++ after) = .ok quantity) :
    reduce operand previous (before ++ other ++ after) = .ok quantity := by
  rcases reduce_eq_ok_iff.mp isValue with ⟨below, isFinal⟩
  rcases run_append_eq_ok_iff.mp isFinal with ⟨middle, isMiddle, isRest⟩
  rcases run_append_eq_ok_iff.mp isMiddle with ⟨stack, isStack, isPart⟩
  apply reduce_eq_ok_iff.mpr
  refine ⟨below, run_append_eq_ok_iff.mpr ⟨middle, ?_, isRest⟩⟩
  exact run_append_eq_ok_iff.mpr ⟨stack, isStack, implies stack middle isPart⟩

theorem Tree.reduce_tokens (tree : Tree) :
    reduce operand previous tree.tokens = tree.value operand previous := by
  rw [reduce_eq_run, run_tokens]
  cases tree.value operand previous <;> rfl

end Expression

namespace Environment

open Expression

variable {environment : Environment} {chain others tokens lockTokens : List String}
  {name token : String} {quantity : Quantity Float}

/-- No token of a lock leads back to the lock if the token has a value. -/
theorem not_leadsIndirectly_of_mem (means : environment.meaning name = .lock lockTokens)
    (member : token ∈ lockTokens) (isValue : environment.resolve chain token = .ok quantity)
    (isLock : environment.StandsForLock token) : ¬environment.LeadsIndirectly token name := by
  intro leads
  have leadsTo : environment.LeadsTo name token := ⟨lockTokens, means, member, isLock⟩
  exact not_transGen_of_resolve_eq_ok isValue (.tail' leads leadsTo)

/-- The value of an expression is the same within the expansions of any locks that its tokens do not
lead to. -/
theorem evaluateWithin_of_not_leadsIndirectly
    (isValue : environment.evaluateWithin chain tokens = .ok quantity)
    (apart : ∀ token ∈ tokens, ∀ value, environment.resolve chain token = .ok value →
      environment.StandsForLock token →
      ∀ other ∈ others, ¬environment.LeadsIndirectly token other) :
    environment.evaluateWithin others tokens = .ok quantity := by
  rw [← isValue]
  apply reduce_congr
  intro token member isToken
  rcases exists_value_of_reduce_eq_ok isValue token member isToken with ⟨value, isTokenValue⟩
  rw [isTokenValue]
  exact resolve_of_not_leadsIndirectly isToken isTokenValue (apart token member value isTokenValue)

/-- The tokens of a lock have a value within the expansion of the lock just if they have this value
by themselves. -/
theorem evaluateWithin_eq_ok_iff (means : environment.meaning name = .lock lockTokens) :
    environment.evaluateWithin [name] lockTokens = .ok quantity ↔
      environment.evaluate lockTokens = .ok quantity := by
  constructor
  · intro isValue
    apply evaluateWithin_of_not_leadsIndirectly isValue
    simp
  · intro isValue
    apply evaluateWithin_of_not_leadsIndirectly isValue
    intro token member value isTokenValue isLock other isName
    rw [List.mem_singleton.mp isName]
    exact not_leadsIndirectly_of_mem means member isTokenValue isLock

/-- A lock whose tokens are those of a tree has the value of the tree. -/
theorem resolve_eq_ok_iff_tree {tree : Tree}
    (means : environment.meaning name = .lock tree.tokens) :
    environment.resolve [] name = .ok quantity ↔ environment.treeValue tree = .ok quantity := by
  rw [resolve_of_notMem means (by simp)]
  refine (evaluateWithin_eq_ok_iff means).trans ?_
  rw [evaluate, Tree.reduce_tokens]
  rfl

/-- On any stack the name of a lock does the same as the tokens of its tree, as far as they have a
value. -/
theorem run_singleton_eq_ok_iff_tree {tree : Tree} {stack next : Stack}
    (isOperand : Token.ofString name = .operand)
    (means : environment.meaning name = .lock tree.tokens) :
    run (environment.resolve []) environment.previous stack [name] = .ok next ↔
      run (environment.resolve []) environment.previous stack tree.tokens = .ok next := by
  have sameValue : ∀ quantity, environment.resolve [] name = .ok quantity ↔
      environment.treeValue tree = .ok quantity := fun _ => resolve_eq_ok_iff_tree means
  rw [run_operand isOperand, Tree.run_tokens]
  change _ ↔ (environment.treeValue tree).map _ = _
  cases isLock : environment.resolve [] name <;> cases isTree : environment.treeValue tree <;>
    simp_all [Except.map]

/-- A lock may be written out. In a store that is built by its operations, the name of a lock whose
tokens are one tree, and that is no constant, can be replaced by these tokens in any expression
without changing its value. Whatever the tokens of a lock are, its name leaves the stack of the
caller as it is and puts its value on top; so an expression that ends in the name has no other value
than the name alone. -/
theorem evaluate_inline_lock {environment : Environment} {name : String} {lockTokens : List String}
    (built : environment.store.Built) (isLock : environment.store.lock? name = some lockTokens) :
    ((∃ tree : Tree, tree.tokens = lockTokens) → environment.constants.get? name = none →
      ∀ before after quantity,
        environment.evaluate (before ++ [name] ++ after) = .ok quantity ↔
          environment.evaluate (before ++ lockTokens ++ after) = .ok quantity) ∧
      (∀ stack, run (environment.resolve []) environment.previous stack [name] =
        (environment.evaluate [name]).map fun quantity => quantity :: stack) ∧
      ∀ before quantity, environment.evaluate (before ++ [name]) = .ok quantity →
        environment.evaluate [name] = .ok quantity := by
  have isOperand := ofString_of_check (built.check_eq_ok (Store.lock?_eq_some_iff.mp isLock))
  refine ⟨?_, ?_, ?_⟩
  · rintro ⟨tree, rfl⟩ notConstant before after quantity
    have means := meaning_eq_lock_iff.mpr ⟨notConstant, isLock⟩
    constructor
    · apply reduce_eq_ok_of_run_imp
      exact fun stack next => (run_singleton_eq_ok_iff_tree isOperand means).mp
    · apply reduce_eq_ok_of_run_imp
      exact fun stack next => (run_singleton_eq_ok_iff_tree isOperand means).mpr
  · intro stack
    rw [run_operand isOperand, evaluate_singleton isOperand]
  · intro before quantity isValue
    rw [evaluate_singleton isOperand]
    rcases reduce_eq_ok_iff.mp isValue with ⟨below, isFinal⟩
    rcases run_append_eq_ok_iff.mp isFinal with ⟨stack, _, isLast⟩
    rw [run_operand isOperand] at isLast
    cases isResolved : environment.resolve [] name <;> simp_all [Except.map]

/-- The lock `a` is written out below an operation that takes its left operand from the caller, and
with another lock among its tokens. -/
theorem evaluate_inline_lock_sum :
    let store := (Store.empty.write "b" (.lock ["ans", "neg"])).write "a" (.lock ["b", "ans", "+"])
    let environment : Environment := ⟨⟨[], []⟩, {}, store, .dimensionless 0⟩
    environment.store.Built ∧ environment.store.lock? "a" = some ["b", "ans", "+"] ∧
      (∃ tree : Tree, tree.tokens = ["b", "ans", "+"]) ∧
      environment.constants.get? "a" = none ∧
      (∀ quantity, environment.evaluate ["ans", "a", "-"] = .ok quantity ↔
        environment.evaluate ["ans", "b", "ans", "+", "-"] = .ok quantity) ∧
      ∀ quantity, environment.evaluate ["ans", "a"] = .ok quantity →
        environment.evaluate ["a"] = .ok quantity := by
  intro store environment
  have built : environment.store.Built :=
    (Store.Built.empty.write (.lock ["ans", "neg"]) (by decide)).write (.lock ["b", "ans", "+"])
      (by decide)
  have isLock : environment.store.lock? "a" = some ["b", "ans", "+"] := by
    cbv
  have isTree : ∃ tree : Tree, tree.tokens = ["b", "ans", "+"] :=
    ⟨.binary "+" rfl (.operand "b" rfl) (.previous "ans" rfl), rfl⟩
  have inlined := evaluate_inline_lock built isLock
  exact ⟨built, isLock, isTree, rfl, inlined.1 isTree rfl ["ans"] ["-"], inlined.2.2 ["ans"]⟩

end Environment

end Metrology

import Mathlib.Data.List.Chain
import Metrology.Proofs.Expression.Resolution

/-!
# Cycles of locks

A lock leads to the locks among its own tokens. This file proves that an expression is refused for a
cycle just when that is called for: an expression that has a value reaches no cycle, and the chain
that is reported leads from a token of the expression along these links to a lock that it has
already come through. Locks that are merely used more than once are therefore never taken for a
cycle.

The invariant of an evaluation is its chain of locks in progress: they are distinct, and together
with the operand that is looked at they form a path from the expression.
-/

namespace Metrology.Environment

/-- Whether a token of an expression stands for a lock. -/
def StandsForLock (environment : Environment) (token : String) : Prop :=
  Token.ofString token = .operand ∧ ∃ tokens, environment.meaning token = .lock tokens

/-- Whether a name is a lock that has another lock among its tokens. -/
def LeadsTo (environment : Environment) (name next : String) : Prop :=
  ∃ tokens, environment.meaning name = .lock tokens ∧ next ∈ tokens ∧
    environment.StandsForLock next

/-- The locks that can be reached from the tokens of an expression. -/
inductive Reaches (environment : Environment) (tokens : List String) : String → Prop where
  | token {name : String} (member : name ∈ tokens) (isLock : environment.StandsForLock name) :
      Reaches environment tokens name
  | link {name next : String} (reached : Reaches environment tokens name)
      (leads : environment.LeadsTo name next) : Reaches environment tokens next

/-- Whether no lock that can be reached from the tokens of an expression leads back to itself. -/
def Acyclic (environment : Environment) (tokens : List String) : Prop :=
  ∀ name, environment.Reaches tokens name → ¬Relation.TransGen environment.LeadsTo name name

/-- Locks one leading to the next, the first of them a token of an expression. -/
structure IsPath (environment : Environment) (tokens path : List String) : Prop where
  begins : ∀ first ∈ path.head?, first ∈ tokens
  locks : ∀ name ∈ path, environment.StandsForLock name
  links : path.IsChain environment.LeadsTo

variable {environment : Environment} {tokens path chain : List String} {name next : String}
  {quantity : Quantity Float}

theorem isPath_singleton (member : name ∈ tokens) (isLock : environment.StandsForLock name) :
    environment.IsPath tokens [name] := by
  refine ⟨?_, ?_, .singleton name⟩
  · simpa using member
  · simpa using isLock

theorem IsPath.snoc (isPath : environment.IsPath tokens (path ++ [name]))
    (leads : environment.LeadsTo name next) :
    environment.IsPath tokens (path ++ [name] ++ [next]) := by
  refine ⟨?_, ?_, ?_⟩
  · intro first isFirst
    refine isPath.begins first ?_
    rwa [List.head?_append_of_ne_nil _ (by simp)] at isFirst
  · intro other member
    rcases List.mem_append.mp member with earlier | isLast
    · exact isPath.locks other earlier
    · rw [List.mem_singleton.mp isLast]
      exact leads.choose_spec.2.2
  · refine isPath.links.append (.singleton next) ?_
    simpa using leads

theorem IsPath.reaches (isPath : environment.IsPath tokens path) :
    ∀ name ∈ path, environment.Reaches tokens name := by
  refine isPath.links.induction _ path (fun _ _ leads reached => .link reached leads) ?_
  intro nonempty
  have isHead := List.head?_eq_some_head nonempty
  exact .token (isPath.begins _ isHead) (isPath.locks _ (List.head_mem nonempty))

/-- A lock that a path comes to twice leads back to itself. -/
theorem IsPath.transGen_of_mem (isPath : environment.IsPath tokens (path ++ [name]))
    (member : name ∈ path) : Relation.TransGen environment.LeadsTo name name := by
  rcases List.append_of_mem member with ⟨before, after, rfl⟩
  have links : (before ++ (name :: (after ++ [name]))).IsChain environment.LeadsTo := by
    simpa using isPath.links
  have linked := (links.right_of_append.imp fun _ _ leads => Relation.TransGen.single leads)
  exact linked.rel_cons (by simp)

/-- What the value of a lock says about the locks that it leads to. -/
theorem resolve_of_leadsTo (isValue : environment.resolve chain name = .ok quantity)
    (leads : environment.LeadsTo name next) :
    name ∉ chain ∧ ∃ value, environment.resolve (chain ++ [name]) next = .ok value := by
  rcases leads with ⟨tokens, means, member, isLock⟩
  have fresh : name ∉ chain := by
    intro member
    rw [resolve_of_mem means member] at isValue
    cases isValue
  rw [resolve_of_notMem means fresh] at isValue
  exact ⟨fresh, Expression.exists_value_of_reduce_eq_ok isValue next member isLock.1⟩

/-- Where an expression has a value, so has every lock that it reaches. -/
theorem exists_resolve_of_reaches (isValue : environment.evaluate tokens = .ok quantity)
    (reached : environment.Reaches tokens name) :
    ∃ chain value, environment.resolve chain name = .ok value := by
  induction reached with
  | token member isLock =>
      exact ⟨[], Expression.exists_value_of_reduce_eq_ok isValue _ member isLock.1⟩
  | link _ leads ih =>
      rcases ih with ⟨chain, value, isResolved⟩
      exact ⟨_, (resolve_of_leadsTo isResolved leads).2⟩

/-- The locks on the way to an operand are in progress while it is looked at. -/
theorem exists_resolve_of_transGen (isValue : environment.resolve chain name = .ok quantity)
    (leads : Relation.TransGen environment.LeadsTo name next) :
    ∃ inner value, name ∈ inner ∧ environment.resolve inner next = .ok value := by
  induction leads with
  | single leads =>
      rcases (resolve_of_leadsTo isValue leads).2 with ⟨value, isResolved⟩
      exact ⟨_, value, by simp, isResolved⟩
  | tail _ leads ih =>
      rcases ih with ⟨inner, value, member, isResolved⟩
      rcases (resolve_of_leadsTo isResolved leads).2 with ⟨result, isResult⟩
      exact ⟨_, result, List.mem_append_left _ member, isResult⟩

/-- A lock that has a value does not lead back to itself. -/
theorem not_transGen_of_resolve_eq_ok (isValue : environment.resolve chain name = .ok quantity) :
    ¬Relation.TransGen environment.LeadsTo name name := by
  intro cycle
  rcases exists_resolve_of_transGen isValue cycle with ⟨inner, result, member, isResult⟩
  rcases Relation.TransGen.head'_iff.mp cycle with ⟨_, ⟨tokens, means, _⟩, _⟩
  rw [resolve_of_mem means member] at isResult
  cases isResult

theorem acyclic_of_evaluate_eq_ok (isValue : environment.evaluate tokens = .ok quantity) :
    environment.Acyclic tokens := by
  intro name reached
  rcases exists_resolve_of_reaches isValue reached with ⟨chain, value, isResolved⟩
  exact not_transGen_of_resolve_eq_ok isResolved

/-- A cycle that is reported for an operand is a path through the locks in progress and back to one
of them. -/
theorem isPath_of_resolve_eq_error {operand repeated : String} {reported : List String}
    (distinct : chain.Nodup) (isOperand : Token.ofString operand = .operand)
    (isPath : environment.StandsForLock operand →
      environment.IsPath tokens (chain ++ [operand]))
    (isError : environment.resolve chain operand = .error (.cyclicLock repeated reported)) :
    ∃ path, reported = path ++ [repeated] ∧ path.Nodup ∧ repeated ∈ path ∧
      environment.IsPath tokens reported := by
  induction chain, operand using resolve.induct environment with
  | case1 chain operand quantity means =>
      rw [resolve_of_value means] at isError
      cases isError
  | case2 chain operand means =>
      rw [resolve_of_literal means] at isError
      exact False.elim (ofQuantity_ne_cyclicLock isError)
  | case3 chain operand lockTokens means member =>
      rw [resolve_of_mem means member] at isError
      cases isError
      exact ⟨chain, rfl, distinct, member, isPath ⟨isOperand, lockTokens, means⟩⟩
  | case4 chain operand lockTokens means fresh ih =>
      rw [resolve_of_notMem means fresh] at isError
      rcases Expression.exists_operand_of_reduce_eq_cyclicLock isError with
        ⟨token, member, isToken, isTokenError⟩
      have isExtended := isPath ⟨isOperand, lockTokens, means⟩
      refine ih token ?_ isToken ?_ isTokenError
      · refine List.nodup_append.mpr ⟨distinct, by simp, ?_⟩
        rintro other inChain last isLast rfl
        exact fresh (List.mem_singleton.mp isLast ▸ inChain)
      · intro isLock
        exact isExtended.snoc ⟨lockTokens, means, member, isLock⟩

theorem isPath_of_evaluate_eq_error {repeated : String} {reported : List String}
    (isError : environment.evaluate tokens = .error (.cyclicLock repeated reported)) :
    ∃ path, reported = path ++ [repeated] ∧ path.Nodup ∧ repeated ∈ path ∧
      environment.IsPath tokens reported := by
  rcases Expression.exists_operand_of_reduce_eq_cyclicLock isError with
    ⟨token, member, isToken, isTokenError⟩
  exact isPath_of_resolve_eq_error .nil isToken (isPath_singleton member) isTokenError

/-- Cycles are found exactly. An expression with a value reaches no cycle. The chain of a reported
cycle is a path of distinct locks from the expression, and then one of these locks again. An
expression that reaches no cycle is never refused for one. -/
theorem cyclicLock_exact (environment : Environment) (tokens : List String) :
    (∀ quantity, environment.evaluate tokens = .ok quantity → environment.Acyclic tokens) ∧
      (∀ name chain, environment.evaluate tokens = .error (.cyclicLock name chain) →
        ∃ path, chain = path ++ [name] ∧ path.Nodup ∧ name ∈ path ∧
          environment.IsPath tokens chain) ∧
      (environment.Acyclic tokens →
        ∀ name chain, environment.evaluate tokens ≠ .error (.cyclicLock name chain)) := by
  refine ⟨fun _ => acyclic_of_evaluate_eq_ok, fun _ _ => isPath_of_evaluate_eq_error, ?_⟩
  intro acyclic name chain isError
  rcases isPath_of_evaluate_eq_error isError with ⟨path, rfl, _, member, isPath⟩
  exact acyclic name (isPath.reaches name (by simp)) (isPath.transGen_of_mem member)

/-- A lock that is used twice is no cycle, but two locks that use each other are. -/
example (system : UnitSystem) (previous : Quantity Float) :
    let locks := .ofList [("a", ["b", "c"]), ("b", ["c"]), ("c", ["b"])]
    evaluate ⟨system, {}, { expressions := locks }, previous⟩ ["a"] =
      .error (.cyclicLock "b" ["a", "b", "c", "b"]) := by
  cbv

end Metrology.Environment

import Mathlib.Data.List.Nodup
import Mathlib.Data.List.Perm.Subperm
import Metrology.Proofs.Expression.Resolution

/-!
# Expanding locks step by step

Evaluation as a machine that changes the chain of locks in progress in place. A lock that is met is
appended to the chain, and its tokens are read on a stack of their own while the expression around
it waits. At the end of the lock, with a value or with an error, it is taken off the chain again.
Nothing in the machine bounds its depth or its number of steps.

The bound on the depth follows from what every step keeps. The locks in the chain are distinct,
since a lock is appended only where the chain does not have it, and there is one for each level that
waits. The machine comes to its end since every token with all the expansions below it leads back to
the chain that it was met with. This is shown along the recursion of `Environment.resolve`, so the
end has the outcome of `Environment.evaluate`.
-/

namespace Metrology

/-- An expression that is being read: the tokens that are left and the stack. -/
structure Level where
  tokens : List String
  stack : Stack

/-- The state of an evaluation. -/
inductive Progress where
  /-- The innermost level reads on. The others wait for the value of a lock each. -/
  | reading (chain : List String) (level : Level) (waiting : List Level)
  /-- The innermost level has come to its end. -/
  | leaving (chain : List String) (outcome : Except EvalError (Quantity Float))
      (waiting : List Level)

namespace Progress

/-- The locks in progress. -/
def chain : Progress → List String
  | reading chain _ _ | leaving chain _ _ => chain

def waiting : Progress → List Level
  | reading _ _ waiting | leaving _ _ waiting => waiting

def start (tokens : List String) : Progress :=
  reading [] ⟨tokens, []⟩ []

/-- How a level goes on past a token: with the stack after it, or not at all after an error. -/
def past (chain tokens : List String) (waiting : List Level) : Except EvalError Stack → Progress
  | .ok stack => reading chain ⟨tokens, stack⟩ waiting
  | .error error => leaving chain (.error error) waiting

variable {chain tokens : List String} {waiting : List Level} {result : Except EvalError Stack}

@[simp]
theorem chain_past : (past chain tokens waiting result).chain = chain := by
  cases result <;> rfl

@[simp]
theorem waiting_past : (past chain tokens waiting result).waiting = waiting := by
  cases result <;> rfl

end Progress

namespace Environment

/-- The outcome of an operand that no lock is expanded for. -/
def immediate (environment : Environment) (chain : List String) (name : String) :
    Except EvalError (Quantity Float) :=
  match environment.meaning name with
  | .value quantity => .ok quantity
  | .literal => EvalError.ofQuantity (Quantity.parse environment.system name)
  | .lock _ => .error (.cyclicLock name (chain ++ [name]))

/-- The tokens of the lock that is expanded for a token. -/
def expansion? (environment : Environment) (chain : List String) (token : String) :
    Option (List String) :=
  match Token.ofString token, environment.meaning token with
  | .operand, .lock lockTokens => if token ∈ chain then none else some lockTokens
  | _, _ => none

/-- One step of an evaluation, unless it is at its end. -/
def advance? (environment : Environment) : Progress → Option Progress
  | .reading chain ⟨[], stack⟩ waiting => some (.leaving chain (Expression.top stack) waiting)
  | .reading chain ⟨token :: tokens, stack⟩ waiting =>
      match environment.expansion? chain token with
      | some lockTokens =>
          some (.reading (chain ++ [token]) ⟨lockTokens, []⟩ (⟨tokens, stack⟩ :: waiting))
      | none =>
          some (.past chain tokens waiting
            (Expression.step (environment.immediate chain) environment.previous stack token))
  | .leaving chain outcome (⟨tokens, stack⟩ :: waiting) =>
      some (.past chain.dropLast tokens waiting (outcome.map (· :: stack)))
  | .leaving _ _ [] => none

/-- Finitely many steps lead from one state to the other. -/
def Leads (environment : Environment) : Progress → Progress → Prop :=
  Relation.ReflTransGen fun before after => environment.advance? before = some after

/-- A token, with all the expansions below it, leads back to the chain that it was met with. -/
def Reads (environment : Environment) (chain : List String) (waiting : List Level)
    (token : String) : Prop :=
  ∀ tokens stack, environment.Leads (.reading chain ⟨token :: tokens, stack⟩ waiting)
    (.past chain tokens waiting
      (Expression.step (environment.resolve chain) environment.previous stack token))

/-- What every state of an evaluation is like: the locks in progress are distinct, and a level waits
for each of them. -/
structure IsOrderly (environment : Environment) (progress : Progress) : Prop where
  distinct : progress.chain.Nodup
  areLocks : ∀ name ∈ progress.chain, ∃ tokens, environment.store.lock? name = some tokens
  depth : progress.waiting.length = progress.chain.length

variable {environment : Environment} {chain tokens lockTokens : List String} {token : String}
  {stack : Stack} {waiting : List Level} {before after progress : Progress}

theorem expansion?_eq_some_iff :
    environment.expansion? chain token = some lockTokens ↔
      Token.ofString token = .operand ∧ environment.meaning token = .lock lockTokens ∧
        token ∉ chain := by
  unfold expansion?
  split
  · simp_all
    tauto
  · simp_all

theorem expansion?_eq_none_iff :
    environment.expansion? chain token = none ↔
      (Token.ofString token = .operand →
        ∀ lockTokens, environment.meaning token = .lock lockTokens → token ∈ chain) := by
  simp only [Option.eq_none_iff_forall_ne_some, ne_eq, expansion?_eq_some_iff]
  grind

/-- Where no lock is expanded, an operand has its outcome at once. -/
theorem immediate_eq_resolve (isOperand : Token.ofString token = .operand)
    (unexpanded : environment.expansion? chain token = none) :
    environment.immediate chain token = environment.resolve chain token := by
  unfold immediate
  cases means : environment.meaning token with
  | value quantity => exact (resolve_of_value means).symm
  | literal => exact (resolve_of_literal means).symm
  | lock lockTokens =>
      have repeated : token ∈ chain :=
        expansion?_eq_none_iff.mp unexpanded isOperand lockTokens means
      exact (resolve_of_mem means repeated).symm

namespace IsOrderly

theorem start (tokens : List String) : environment.IsOrderly (.start tokens) :=
  ⟨.nil, by simp [Progress.start, Progress.chain], rfl⟩

theorem of_eq (orderly : environment.IsOrderly before) (sameChain : after.chain = before.chain)
    (sameWaiting : after.waiting = before.waiting) : environment.IsOrderly after where
  distinct := sameChain ▸ orderly.distinct
  areLocks := sameChain ▸ orderly.areLocks
  depth := by rw [sameChain, sameWaiting, orderly.depth]

/-- A lock is appended to a chain that does not have it. -/
theorem expand {level inner : Level}
    (orderly : environment.IsOrderly (.reading chain level waiting))
    (expands : environment.expansion? chain token = some lockTokens) :
    environment.IsOrderly (.reading (chain ++ [token]) inner (⟨tokens, stack⟩ :: waiting)) := by
  rcases expansion?_eq_some_iff.mp expands with ⟨_, means, fresh⟩
  refine ⟨?_, ?_, ?_⟩
  · have distinct : (chain.concat token).Nodup := List.Nodup.concat fresh orderly.distinct
    rwa [List.concat_eq_append] at distinct
  · intro name member
    rcases List.mem_append.mp member with member | member
    · exact orderly.areLocks name member
    · rw [List.mem_singleton.mp member]
      exact ⟨lockTokens, (meaning_eq_lock_iff.mp means).2⟩
  · simpa [Progress.waiting, Progress.chain] using orderly.depth

/-- The last lock is taken off the chain together with the level that waits for it. -/
theorem leave {level : Level} {outcome : Except EvalError (Quantity Float)}
    (orderly : environment.IsOrderly (.leaving chain outcome (level :: waiting))) :
    environment.IsOrderly (.leaving chain.dropLast outcome waiting) := by
  refine ⟨?_, ?_, ?_⟩
  · exact orderly.distinct.sublist chain.dropLast_sublist
  · intro name member
    exact orderly.areLocks name (chain.dropLast_subset member)
  · have depth : waiting.length + 1 = chain.length := orderly.depth
    simp only [Progress.waiting, Progress.chain, List.length_dropLast]
    omega

/-- Every step keeps the locks in progress distinct. -/
theorem advance (orderly : environment.IsOrderly before)
    (isNext : environment.advance? before = some after) : environment.IsOrderly after := by
  unfold advance? at isNext
  split at isNext
  case h_1 =>
    cases isNext
    exact orderly.of_eq rfl rfl
  case h_2 =>
    split at isNext
    case h_1 expands =>
      cases isNext
      exact orderly.expand expands
    case h_2 =>
      cases isNext
      exact orderly.of_eq Progress.chain_past Progress.waiting_past
  case h_3 =>
    cases isNext
    exact orderly.leave.of_eq Progress.chain_past Progress.waiting_past
  case h_4 => cases isNext

/-- By induction on the steps, every state of an evaluation has distinct locks in progress. -/
theorem of_leads (leads : environment.Leads (.start tokens) progress) :
    environment.IsOrderly progress := by
  induction leads with
  | refl => exact start tokens
  | tail _ isNext orderly => exact orderly.advance isNext

/-- Distinct locks are no more than the store has. -/
theorem length_chain_le (orderly : environment.IsOrderly progress) :
    progress.chain.length ≤ environment.store.locks.length := by
  have amongLocks : progress.chain ⊆ environment.store.locks.map Prod.fst := by
    intro name member
    rcases orderly.areLocks name member with ⟨tokens, isLock⟩
    exact List.mem_map.mpr
      ⟨(name, tokens), Std.TreeMap.mem_toList_iff_getElem?_eq_some.mpr isLock, rfl⟩
  simpa using (orderly.distinct.subperm amongLocks).length_le

end IsOrderly

/-- Where no lock is expanded, one step reads the token. -/
theorem reads_of_unexpanded (unexpanded : environment.expansion? chain token = none) :
    environment.Reads chain waiting token := by
  intro tokens stack
  have sameStep : Expression.step (environment.immediate chain) environment.previous stack token =
      Expression.step (environment.resolve chain) environment.previous stack token :=
    Expression.step_congr fun isOperand => immediate_eq_resolve isOperand unexpanded
  apply Relation.ReflTransGen.single
  simp only [advance?, unexpanded, sameStep]

/-- A level comes to its end when all its tokens are read. -/
theorem leads_leaving (reads : ∀ token, environment.Reads chain waiting token) :
    environment.Leads (.reading chain ⟨tokens, stack⟩ waiting)
      (.leaving chain
        (Expression.run (environment.resolve chain) environment.previous stack tokens >>=
          Expression.top) waiting) := by
  induction tokens generalizing stack with
  | nil => exact .single rfl
  | cons token tokens ih =>
      have leads := reads token tokens stack
      cases isStep :
          Expression.step (environment.resolve chain) environment.previous stack token with
      | ok next =>
          rw [isStep] at leads
          rw [Expression.run_cons_of_stepsTo (Expression.step_eq_ok_iff.mp isStep)]
          exact leads.trans ih
      | error error =>
          rw [isStep] at leads
          rw [Expression.run_cons_of_stepFails (Expression.step_eq_error_iff.mp isStep)]
          exact leads

/-- Where a lock is expanded, its level comes to an end, and the lock is taken off the chain. -/
theorem reads_of_expands (expands : environment.expansion? chain token = some lockTokens)
    (reads : ∀ inner waiting, environment.Reads (chain ++ [token]) waiting inner) :
    environment.Reads chain waiting token := by
  intro tokens stack
  rcases expansion?_eq_some_iff.mp expands with ⟨isOperand, means, fresh⟩
  have enters : environment.advance? (.reading chain ⟨token :: tokens, stack⟩ waiting) =
      some (.reading (chain ++ [token]) ⟨lockTokens, []⟩ (⟨tokens, stack⟩ :: waiting)) := by
    simp only [advance?, expands]
  have inside : environment.Leads
      (.reading (chain ++ [token]) ⟨lockTokens, []⟩ (⟨tokens, stack⟩ :: waiting))
      (.leaving (chain ++ [token]) (environment.resolve chain token)
        (⟨tokens, stack⟩ :: waiting)) := by
    rw [resolve_of_notMem means fresh]
    exact leads_leaving fun inner => reads inner _
  have leaves : environment.advance?
      (.leaving (chain ++ [token]) (environment.resolve chain token)
        (⟨tokens, stack⟩ :: waiting)) =
      some (.past chain tokens waiting
        (Expression.step (environment.resolve chain) environment.previous stack token)) := by
    simp only [advance?, List.dropLast_concat, Expression.step_of_operand isOperand]
  exact .head enters (.tail inside leaves)

/-- By induction along the recursion of `resolve`, in which the expansions are nested. -/
theorem reads (chain : List String) (token : String) (waiting : List Level) :
    environment.Reads chain waiting token := by
  induction chain, token using resolve.induct environment generalizing waiting with
  | case1 chain token quantity means =>
      apply reads_of_unexpanded
      simp [expansion?_eq_none_iff, means]
  | case2 chain token means =>
      apply reads_of_unexpanded
      simp [expansion?_eq_none_iff, means]
  | case3 chain token lockTokens means repeated =>
      apply reads_of_unexpanded
      simp [expansion?_eq_none_iff, repeated]
  | case4 chain token lockTokens means fresh ih =>
      cases expands : environment.expansion? chain token with
      | none => exact reads_of_unexpanded expands
      | some _ => exact reads_of_expands expands ih

/-- An evaluation comes to its end with the value of the expression. -/
theorem leads_evaluate (tokens : List String) :
    environment.Leads (.start tokens) (.leaving [] (environment.evaluate tokens) []) :=
  leads_leaving fun token => reads [] token []

/-- What comes to an end does so from every state on its way. -/
theorem Leads.leaving_of_leads {outcome : Except EvalError (Quantity Float)}
    (ends : environment.Leads before (.leaving [] outcome []))
    (leads : environment.Leads before progress) :
    environment.Leads progress (.leaving [] outcome []) := by
  have unique : Relator.RightUnique fun before after =>
      environment.advance? before = some after := by
    intro before after other isAfter isOther
    rw [isAfter] at isOther
    exact Option.some.inj isOther
  rcases Relation.ReflTransGen.total_of_right_unique unique leads ends with later | earlier
  · exact later
  · rcases earlier.cases_head with isEnd | ⟨next, isNext, _⟩
    · rw [isEnd]
      exact .refl
    · cases isNext

/-- Whatever the locks of the store are, an evaluation comes to its one end, with the value of the
expression, from every state that it gets to. In each of these states the locks in progress are
distinct locks of the store and a level waits for each, so expansions are nested no deeper than the
store has locks. An operand, met with any chain, leaves this chain when it has its outcome, be it a
value or an error. -/
theorem evaluation_terminates (environment : Environment) (tokens : List String) :
    (environment.Leads (.start tokens) (.leaving [] (environment.evaluate tokens) []) ∧
      environment.advance? (.leaving [] (environment.evaluate tokens) []) = none ∧
      ∀ progress, environment.Leads (.start tokens) progress →
        environment.Leads progress (.leaving [] (environment.evaluate tokens) [])) ∧
    (∀ progress, environment.Leads (.start tokens) progress →
      progress.chain.Nodup ∧
      (∀ name ∈ progress.chain, ∃ lockTokens, environment.store.lock? name = some lockTokens) ∧
      progress.waiting.length = progress.chain.length ∧
      progress.waiting.length ≤ environment.store.locks.length) ∧
    ∀ (chain : List String) (name : String) (rest : List String) (stack : Stack)
        (waiting : List Level), Token.ofString name = .operand →
      environment.Leads (.reading chain ⟨name :: rest, stack⟩ waiting)
        (.past chain rest waiting ((environment.resolve chain name).map (· :: stack))) := by
  refine ⟨⟨leads_evaluate tokens, rfl, ?_⟩, ?_, ?_⟩
  · intro progress leads
    exact (leads_evaluate tokens).leaving_of_leads leads
  · intro progress leads
    have orderly : environment.IsOrderly progress := .of_leads leads
    refine ⟨orderly.distinct, orderly.areLocks, orderly.depth, ?_⟩
    rw [orderly.depth]
    exact orderly.length_chain_le
  · intro chain name rest stack waiting isOperand
    have reads : environment.Reads chain waiting name := reads chain name waiting
    have leads := reads rest stack
    rwa [Expression.step_of_operand isOperand] at leads

end Environment

end Metrology

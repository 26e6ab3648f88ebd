import Metrology.Proofs.Expression.Postfix
import Metrology.Proofs.Session.Command
import Metrology.Proofs.Session.Names

/-!
# Stored locks

Every lock that a session holds was written by a line, so it has at least one token and all of its
tokens are words. This is why the evaluation of a line never meets an empty expression, however
deeply the locks in it are nested, and why a lock that the listing shows can be entered again.
-/

namespace Metrology

namespace Store

variable {store : Store} {name : String} {tokens : List String}

/-- The text of a lock in a listing. -/
def shownLock (name : String) (tokens : List String) : String :=
  "\n\t\t" ++ name ++ " := " ++ String.intercalate " " tokens

theorem isEmpty_of_get? (found : store.get? name = some (.lock tokens)) :
    store.isEmpty = false := by
  have isLock := lock?_eq_some_iff.mpr found
  have member : name ∈ store.expressions :=
    Std.TreeMap.mem_iff_isSome_getElem?.mpr (Option.isSome_of_eq_some isLock)
  rw [isEmpty, Std.TreeMap.isEmpty_eq_false_of_contains (Std.TreeMap.mem_iff_contains.mp member),
    Bool.and_false]

/-- The listing shows every lock. -/
theorem exists_listing_eq (found : store.get? name = some (.lock tokens))
    (display : Quantity Float → String) :
    ∃ before after, store.listing display = before ++ shownLock name tokens ++ after := by
  rcases List.append_of_mem (mem_locks_iff.mpr found) with ⟨before, after, isLocks⟩
  rw [listing, isEmpty_of_get? found, if_neg Bool.false_ne_true, isLocks, List.map_append,
    List.map_cons, ← List.append_assoc, String.join_append, String.join_cons, ← String.append_assoc]
  exact ⟨_, _, rfl⟩

end Store

/-- The machine reports an empty expression only where there is none or where an operand does. -/
theorem Expression.reduce_ne_emptyExpression
    {operand : String → Except EvalError (Quantity Float)} {previous : Quantity Float}
    {tokens : List String} (ofOperand : ∀ token, operand token ≠ .error .emptyExpression)
    (nonempty : tokens ≠ []) : reduce operand previous tokens ≠ .error .emptyExpression := by
  intro isError
  rcases Tree.reduce_eq_emptyExpression_iff.mp isError with
    isEmpty | ⟨_, token, _, _, _, _, isError⟩
  · exact nonempty isEmpty
  · exact ofOperand token isError

namespace Environment

variable {environment : Environment} {tokens : List String}

/-- Where no lock is empty, no operand reports an empty expression, at any depth of expansion. -/
theorem resolve_ne_emptyExpression
    (nonempty : ∀ name tokens, environment.meaning name = .lock tokens → tokens ≠ [])
    (chain : List String) (name : String) :
    environment.resolve chain name ≠ .error .emptyExpression := by
  induction chain, name using resolve.induct environment with
  | case1 chain name value means => simp [resolve_of_value means]
  | case2 chain name means =>
      rw [resolve_of_literal means]
      exact ofQuantity_ne_emptyExpression
  | case3 chain name tokens means member => simp [resolve_of_mem means member]
  | case4 chain name tokens means fresh ih =>
      rw [resolve_of_notMem means fresh]
      exact Expression.reduce_ne_emptyExpression ih (nonempty name tokens means)

theorem evaluate_ne_emptyExpression
    (nonempty : ∀ name tokens, environment.meaning name = .lock tokens → tokens ≠ [])
    (isExpression : tokens ≠ []) : environment.evaluate tokens ≠ .error .emptyExpression :=
  Expression.reduce_ne_emptyExpression (resolve_ne_emptyExpression nonempty []) isExpression

end Environment

namespace Command

variable {name : String} {tokens : List String} {line : String}

/-- The line that stores a lock, with its tokens as they are listed. -/
def lockLine (name : String) (tokens : List String) : String :=
  name ++ " lock " ++ String.intercalate " " tokens

theorem lockLine_eq (nonempty : tokens ≠ []) :
    lockLine name tokens = String.intercalate " " (lock name tokens).words := by
  have keyword : " lock " = " " ++ "lock" ++ " " := by decide
  rw [words, String.intercalate_cons_cons, String.intercalate_cons_of_ne_nil nonempty, lockLine,
    keyword]
  simp only [String.append_assoc]

/-- The tokens of a lock that has been read are words, and there is one. -/
theorem tokens_of_ofLine (isLock : ofLine line = .ok (.lock name tokens)) :
    tokens ≠ [] ∧ ∀ token ∈ tokens, Text.IsWord token := by
  constructor
  · exact (writtenAs_of_ofWords isLock).2 tokens rfl
  · intro token member
    refine isWord_of_ofLine isLock token ?_
    simp [words, member]

theorem ofLine_lockLine (isLock : ofLine line = .ok (.lock name tokens)) :
    ofLine (lockLine name tokens) = .ok (.lock name tokens) := by
  rw [lockLine_eq (tokens_of_ofLine isLock).1, ofLine,
    Text.words_intercalate (isWord_of_ofLine isLock)]
  exact ofWords_words isLock

end Command

namespace Session

variable {session next other : Session} {command : Command} {line name : String}
  {tokens : List String} {error : EvalError}

/-- Whether every lock that is held was written by a line. -/
def IsWritten (session : Session) : Prop :=
  ∀ name tokens, session.store.get? name = some (.lock tokens) →
    ∃ line, Command.ofLine line = .ok (.lock name tokens)

theorem isWritten_new (system : UnitSystem) (constants : Constants) :
    (new system constants).IsWritten := by
  intro name tokens found
  cases Store.get?_empty.symm.trans found

/-- A command that stores a lock has read it from its line, and no other command stores one. -/
theorem isKept_isWritten : IsKept IsWritten := by
  intro session next line command response read performs written name tokens found
  by_cases names : command.named? = some name
  · have isLock := (performs.leaves names).eq_lock_iff.mp found
    exact ⟨line, isLock ▸ read⟩
  · rw [performs.get?_eq names] at found
    exact written name tokens found

theorem checkName_ne_eval : session.checkName name ≠ .error (.eval error) := by
  unfold checkName
  split
  · simp
  · cases Name.check name <;> simp [SessionError.ofName]

theorem evaluate_eq_eval_iff :
    session.evaluate tokens = .error (.eval error) ↔
      session.toEnvironment.evaluate tokens = .error error := by
  unfold evaluate
  cases session.toEnvironment.evaluate tokens <;> simp [SessionError.ofEval]

/-- An error of evaluation comes from the expression of a command. -/
theorem Fails.exists_evaluate_eq (fails : Fails session command (.eval error)) :
    ∃ expression ∈ command.expression?,
      session.toEnvironment.evaluate expression = .error error := by
  cases fails with
  | assignName notFree | lockName notFree => exact absurd notFree checkName_ne_eval
  | assignValue _ noValue | convertValue noValue | evaluate noValue =>
      exact ⟨_, rfl, evaluate_eq_eval_iff.mp noValue⟩

/-- Where every lock was written by a line, no line reports an empty expression. -/
theorem IsWritten.respond_ne_emptyExpression (written : session.IsWritten) (line : String) :
    (session.respond line).1 ≠ .error (.eval .emptyExpression) := by
  intro failed
  rcases error_cases session failed with ⟨_, _, isMissing⟩ | ⟨command, read, fails⟩
  · cases isMissing
  · rcases fails.exists_evaluate_eq with ⟨expression, isExpression, isError⟩
    have nonempty := (Command.writtenAs_of_ofWords read).2 expression isExpression
    refine Environment.evaluate_ne_emptyExpression (fun name tokens means => ?_) nonempty isError
    have isLock := Store.lock?_eq_some_iff.mp (Environment.meaning_eq_lock_iff.mp means).2
    rcases written name tokens isLock with ⟨line, read⟩
    exact (Command.tokens_of_ofLine read).1

theorem respond_of_lock (isCommand : Command.ofLine line = .ok (.lock name tokens))
    (free : session.checkName name = .ok ()) :
    session.respond line =
      (.ok (.text ("Locked " ++ name ++ ".")),
        { session with store := session.store.write name (.lock tokens) }) := by
  have stored : session.store.insert? name (.lock tokens) =
      .ok (session.store.write name (.lock tokens)) :=
    Store.insert?_eq_ok_iff.mpr ⟨(checkName_eq_ok_iff.mp free).2, rfl⟩
  simp only [respond, execute, isCommand, SessionError.ofCommand, perform, Action.run_bind,
    Action.run_get, Action.run_lift, Action.run_modify, Action.run_pure, free, stored,
    SessionError.ofName]

/-- No line that a session is given reports an empty expression, whatever locks earlier lines have
stored. Every lock that the session holds has a token, and all of its tokens are words. The listing
shows it, and the line that stores it as it is shown succeeds in every session over the same tables,
be it this one or a new one, and stores the same lock there and nothing else. -/
theorem emptyExpression_unreachable (system : UnitSystem) (constants : Constants)
    (lines : List String) :
    let session := (new system constants).afterAll lines
    (∀ line, (session.respond line).1 ≠ .error (.eval .emptyExpression)) ∧
      ∀ name tokens, (name, tokens) ∈ session.store.locks →
        tokens ≠ [] ∧
        (∀ token ∈ tokens, Text.IsWord token) ∧
        (∃ before after, session.respond "list" =
          (.ok (.text (before ++ Store.shownLock name tokens ++ after)), session)) ∧
        ∀ others,
          let other := (new system constants).afterAll others
          let entered := Command.lockLine name tokens
          other.respond entered =
              (.ok (.text ("Locked " ++ name ++ ".")),
                { other with store := other.store.write name (.lock tokens) }) ∧
            (name, tokens) ∈ (other.after entered).store.locks ∧
            ∀ unchanged ≠ name,
              (other.after entered).store.get? unchanged = other.store.get? unchanged := by
  intro session
  have written : session.IsWritten :=
    isKept_isWritten.afterAll (isWritten_new system constants) lines
  have checked : session.IsChecked := isChecked_afterAll (isChecked_new system constants) lines
  refine ⟨written.respond_ne_emptyExpression, fun name tokens isLock => ?_⟩
  have found := Store.mem_locks_iff.mp isLock
  rcases written name tokens found with ⟨line, read⟩
  refine ⟨(Command.tokens_of_ofLine read).1, (Command.tokens_of_ofLine read).2, ?_, ?_⟩
  · rcases Store.exists_listing_eq found fun quantity => (quantity.reading session.system).text with
      ⟨before, after, isListing⟩
    refine ⟨before, after, ?_⟩
    rw [← isListing]
    rfl
  · intro others other entered
    have sameConstants : other.constants = session.constants :=
      (constants_afterAll _ others).trans (constants_afterAll _ lines).symm
    have free : other.checkName name = .ok () :=
      (checkName_congr sameConstants).trans (checked name _ found)
    have answer := respond_of_lock (Command.ofLine_lockLine read) free
    have isStore : (other.after entered).store = other.store.write name (.lock tokens) := by
      rw [after, answer]
    refine ⟨answer, ?_, ?_⟩
    · rw [Store.mem_locks_iff, isStore, Store.get?_write, if_pos rfl]
    · intro unchanged different
      rw [isStore, Store.get?_write, if_neg different.symm]

/-- A lock of another lock can be entered again where nothing is stored. -/
theorem emptyExpression_unreachable_nested :
    let session := (new ⟨[], []⟩ .empty).afterAll ["a lock 2", "b lock a a +"]
    ("b", ["a", "a", "+"]) ∈ session.store.locks ∧
      (session.respond "b").1 ≠ .error (.eval .emptyExpression) ∧
      ((new ⟨[], []⟩ .empty).respond "b lock a a +").1 = .ok (.text "Locked b.") := by
  have unreachable := emptyExpression_unreachable ⟨[], []⟩ .empty ["a lock 2", "b lock a a +"]
  have isLock : ("b", ["a", "a", "+"]) ∈ ((new ⟨[], []⟩ .empty).afterAll
      ["a lock 2", "b lock a a +"]).store.locks := by
    decide +kernel
  have entered : Command.lockLine "b" ["a", "a", "+"] = "b lock a a +" := by decide +kernel
  have again := ((unreachable.2 _ _ isLock).2.2.2 []).1
  rw [entered] at again
  exact ⟨isLock, unreachable.1 "b", congrArg Prod.fst again⟩

end Session

end Metrology

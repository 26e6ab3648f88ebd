import Mathlib.Data.List.Induction
import Metrology.Proofs.Session.Step

/-!
# The history of a session

Of the lines that a session has been given only those that succeeded matter. The previous answer is
what the last of them that computes a quantity computed, and what a name stands for was settled by
the last of them that names it. Without the lines that failed the session ends the same, and the
other lines are answered the same.
-/

namespace Metrology

/-- The expression whose value becomes the previous answer. -/
def Command.computed? : Command → Option (List String)
  | assign _ expression | convert expression _ | evaluate expression => some expression
  | _ => none

/-- The name whose entry is changed. -/
def Command.named? : Command → Option String
  | assign name _ | lock name _ | clear name => some name
  | _ => none

namespace Session

/-- A line that succeeded, with the session that it met. -/
structure Success where
  line : String
  session : Session
  command : Command
  response : Response

def success? (session : Session) (line : String) : Option Success :=
  match Command.ofLine line, (session.respond line).1 with
  | .ok command, .ok response => some ⟨line, session, command, response⟩
  | _, _ => none

/-- The lines that succeed, in their order. -/
def history (session : Session) : List String → List Success
  | [] => []
  | line :: rest => (session.success? line).toList ++ history (session.after line) rest

/-- The last line that succeeds with a command of a kind. -/
def lastSuccess? (session : Session) (lines : List String) (kind : Command → Bool) :
    Option Success :=
  (session.history lines).reverse.find? fun success => kind success.command

def afterAll (session : Session) (lines : List String) : Session :=
  lines.foldl after session

/-- The responses and errors, line by line. -/
def answers (session : Session) : List String → List (Except SessionError Response)
  | [] => []
  | line :: rest => (session.respond line).1 :: answers (session.after line) rest

/-- What stands under a name after a command that names it. -/
inductive Leaves (name : String) : Command → Response → Option Entry → Prop where
  | label {expression : List String} {value : Quantity Float} :
      Leaves name (.assign name expression) (.quantity value) (some (.label value))
  | lock {tokens : List String} {response : Response} :
      Leaves name (.lock name tokens) response (some (.lock tokens))
  | nothing {response : Response} : Leaves name (.clear name) response none

variable {session next : Session} {command : Command} {response : Response} {line name : String}

namespace Leaves

variable {stored : Option Entry}

theorem eq_label_iff (leaves : Leaves name command response stored) {value : Quantity Float} :
    stored = some (.label value) ↔
      ∃ expression, command = .assign name expression ∧ response = .quantity value := by
  cases leaves <;> simp [eq_comm]

theorem eq_lock_iff (leaves : Leaves name command response stored) {tokens : List String} :
    stored = some (.lock tokens) ↔ command = .lock name tokens := by
  cases leaves <;> simp [eq_comm]

theorem eq_none_iff (leaves : Leaves name command response stored) :
    stored = none ↔ command = .clear name := by
  cases leaves <;> simp

end Leaves

namespace Performs

theorem evaluate_eq_ok (performs : Performs session command response next)
    {expression : List String} (computes : command.computed? = some expression) :
    session.evaluate expression = .ok next.previous := by
  cases performs <;> simp_all [Command.computed?]

theorem previous_eq (performs : Performs session command response next)
    (computes : command.computed? = none) : next.previous = session.previous := by
  cases performs <;> simp_all [Command.computed?]

theorem leaves (performs : Performs session command response next)
    (names : command.named? = some name) :
    Leaves name command response (next.store.get? name) := by
  cases performs <;> simp only [Command.named?, Option.some.injEq, reduceCtorEq] at names
  case assign stored =>
    subst names
    simp only [Store.get?_of_insert? stored, if_true]
    exact .label
  case lock stored =>
    subst names
    simp only [Store.get?_of_insert? stored, if_true]
    exact .lock
  case clear =>
    subst names
    simp only [Store.get?_erase, if_true]
    exact .nothing

theorem get?_eq (performs : Performs session command response next)
    (names : command.named? ≠ some name) :
    next.store.get? name = session.store.get? name := by
  cases performs <;> simp only [Command.named?, ne_eq, Option.some.injEq] at names
  case assign stored => simp only [Store.get?_of_insert? stored, if_neg names]
  case lock stored => simp only [Store.get?_of_insert? stored, if_neg names]
  case clear => simp only [Store.get?_erase, if_neg names]
  all_goals rfl

theorem system_eq (performs : Performs session command response next) :
    next.system = session.system := by
  cases performs <;> rfl

theorem constants_eq (performs : Performs session command response next) :
    next.constants = session.constants := by
  cases performs <;> rfl

end Performs

/-- A line fails and leaves the session as it was, or it succeeds. -/
theorem success?_cases (session : Session) (line : String) :
    (session.success? line = none ∧ (session.respond line).1.isOk = false ∧
        session.after line = session) ∨
      ∃ command response, session.success? line = some ⟨line, session, command, response⟩ ∧
        (session.respond line).1 = .ok response ∧
        Performs session command response (session.after line) := by
  rcases session.respond_cases line with
    ⟨error, run⟩ | ⟨command, response, next, read, run, performs⟩
  · left
    simp only [success?, after, run]
    exact ⟨by split <;> simp_all, rfl, trivial⟩
  · right
    simp only [success?, after, run, read]
    exact ⟨command, response, rfl, rfl, performs⟩

theorem afterAll_concat (lines : List String) :
    session.afterAll (lines ++ [line]) = (session.afterAll lines).after line := by
  simp only [afterAll, List.foldl_append, List.foldl_cons, List.foldl_nil]

/-- Whether a property of sessions is kept by every command that is read from a line and
succeeds. -/
def IsKept (invariant : Session → Prop) : Prop :=
  ∀ ⦃session next : Session⦄ ⦃line : String⦄ ⦃command : Command⦄ ⦃response : Response⦄,
    Command.ofLine line = .ok command → Performs session command response next →
      invariant session → invariant next

theorem IsKept.after {invariant : Session → Prop} (kept : IsKept invariant)
    (holds : invariant session) (line : String) : invariant (session.after line) := by
  rcases session.respond_cases line with ⟨_, run⟩ | ⟨_, _, _, read, run, performs⟩
  · rw [Session.after, run]
    exact holds
  · rw [Session.after, run]
    exact kept read performs holds

/-- What is kept by every success holds throughout a run. -/
theorem IsKept.afterAll {invariant : Session → Prop} (kept : IsKept invariant)
    (holds : invariant session) (lines : List String) : invariant (session.afterAll lines) := by
  induction lines using List.reverseRecOn with
  | nil => exact holds
  | append_singleton lines line ih =>
      rw [afterAll_concat]
      exact kept.after ih line

/-- A session keeps the unit system and the constants that it began with. -/
theorem tables_afterAll (session : Session) (lines : List String) :
    (session.afterAll lines).system = session.system ∧
      (session.afterAll lines).constants = session.constants := by
  have kept : IsKept fun next =>
      next.system = session.system ∧ next.constants = session.constants := by
    intro _ _ _ _ _ _ performs same
    rwa [performs.system_eq, performs.constants_eq]
  exact kept.afterAll ⟨rfl, rfl⟩ lines

theorem system_afterAll (session : Session) (lines : List String) :
    (session.afterAll lines).system = session.system :=
  (session.tables_afterAll lines).1

theorem constants_afterAll (session : Session) (lines : List String) :
    (session.afterAll lines).constants = session.constants :=
  (session.tables_afterAll lines).2

theorem history_concat (lines : List String) :
    session.history (lines ++ [line]) =
      session.history lines ++ ((session.afterAll lines).success? line).toList := by
  induction lines generalizing session with
  | nil => simp [history, afterAll]
  | cons first rest ih => simp [history, afterAll, ih]

theorem lastSuccess?_of_failure {lines : List String} {kind : Command → Bool}
    (noSuccess : (session.afterAll lines).success? line = none) :
    session.lastSuccess? (lines ++ [line]) kind = session.lastSuccess? lines kind := by
  simp [lastSuccess?, history_concat, noSuccess]

theorem lastSuccess?_of_success {lines : List String} {kind : Command → Bool} {last : Success}
    (success : (session.afterAll lines).success? line = some last) :
    session.lastSuccess? (lines ++ [line]) kind =
      if kind last.command then some last else session.lastSuccess? lines kind := by
  cases isKind : kind last.command <;> simp [lastSuccess?, history_concat, success, isKind]

/-- The previous answer is what the last line that computes a quantity computed. -/
theorem previous_afterAll (session : Session) (lines : List String) :
    (session.lastSuccess? lines (·.computed?.isSome) = none ∧
        (session.afterAll lines).previous = session.previous) ∨
      ∃ last expression, session.lastSuccess? lines (·.computed?.isSome) = some last ∧
        last.command.computed? = some expression ∧
        last.session.evaluate expression = .ok (session.afterAll lines).previous := by
  -- The induction adds lines at the end, since the end is where the last success is looked for.
  induction lines using List.reverseRecOn with
  | nil => exact .inl ⟨rfl, rfl⟩
  | append_singleton lines line ih =>
      rw [afterAll_concat]
      rcases (session.afterAll lines).success?_cases line with
        ⟨noSuccess, _, unchanged⟩ | ⟨command, response, success, _, performs⟩
      · rw [lastSuccess?_of_failure noSuccess, unchanged]
        exact ih
      · rw [lastSuccess?_of_success success]
        cases computes : command.computed? with
        | none =>
            rw [performs.previous_eq computes]
            exact ih
        | some expression =>
            exact .inr ⟨_, expression, rfl, computes, performs.evaluate_eq_ok computes⟩

/-- What a name stands for was settled by the last line that names it. -/
theorem get?_afterAll (session : Session) (lines : List String) (name : String) :
    (session.lastSuccess? lines (·.named? = some name) = none ∧
        (session.afterAll lines).store.get? name = session.store.get? name) ∨
      ∃ last, session.lastSuccess? lines (·.named? = some name) = some last ∧
        Leaves name last.command last.response ((session.afterAll lines).store.get? name) := by
  induction lines using List.reverseRecOn with
  | nil => exact .inl ⟨rfl, rfl⟩
  | append_singleton lines line ih =>
      rw [afterAll_concat]
      rcases (session.afterAll lines).success?_cases line with
        ⟨noSuccess, _, unchanged⟩ | ⟨command, response, success, _, performs⟩
      · rw [lastSuccess?_of_failure noSuccess, unchanged]
        exact ih
      · rw [lastSuccess?_of_success success]
        by_cases names : command.named? = some name
        · rw [if_pos (decide_eq_true names)]
          exact .inr ⟨_, rfl, performs.leaves names⟩
        · rw [if_neg (by simpa using names), performs.get?_eq names]
          exact ih

/-- The lines that succeeded lead to the same session by themselves and are answered the same. -/
theorem afterAll_history (session : Session) (lines : List String) :
    session.afterAll ((session.history lines).map (·.line)) = session.afterAll lines ∧
      session.answers ((session.history lines).map (·.line)) =
        (session.answers lines).filter (·.isOk) := by
  induction lines generalizing session with
  | nil => exact ⟨rfl, rfl⟩
  | cons line rest ih =>
      rcases session.success?_cases line with
        ⟨noSuccess, failed, unchanged⟩ | ⟨command, response, success, answer, _⟩
      · simpa [history, noSuccess, afterAll, answers, failed, unchanged] using ih session
      · simpa [history, success, afterAll, answers, answer, Except.isOk, Except.toBool]
          using ih (session.after line)

/-- Only the lines that succeed matter. A line that fails leaves the session as it was. In a session
that began as a new one, the previous answer is the value of the last expression that was computed,
and every name stands for what the last line that named it left under it. Without the lines that
fail, a session ends the same and the other lines are answered the same. -/
theorem only_successes_matter :
    (∀ (session : Session) (line : String) (error : SessionError),
      (session.respond line).1 = .error error → (session.respond line).2 = session) ∧
    (∀ (system : UnitSystem) (constants : Constants) (lines : List String),
      (match (new system constants).lastSuccess? lines (·.computed?.isSome) with
        | none => ((new system constants).afterAll lines).previous = .dimensionless 0
        | some last => ∃ expression, last.command.computed? = some expression ∧
            last.session.evaluate expression =
              .ok ((new system constants).afterAll lines).previous) ∧
      ∀ name : String,
        let last? := (new system constants).lastSuccess? lines (·.named? = some name)
        let stored := ((new system constants).afterAll lines).store.get? name
        (∀ value, stored = some (.label value) ↔
          ∃ last ∈ last?, ∃ expression, last.command = .assign name expression ∧
            last.response = .quantity value) ∧
        (∀ tokens, stored = some (.lock tokens) ↔
          ∃ last ∈ last?, last.command = .lock name tokens) ∧
        (stored = none ↔ ∀ last ∈ last?, last.command = .clear name)) ∧
    ∀ (session : Session) (lines : List String),
      session.afterAll ((session.history lines).map (·.line)) = session.afterAll lines ∧
        session.answers ((session.history lines).map (·.line)) =
          (session.answers lines).filter (·.isOk) := by
  refine ⟨fun session line error => after_of_error session, ?_, afterAll_history⟩
  intro system constants lines
  constructor
  · rcases (new system constants).previous_afterAll lines with
      ⟨noLast, unchanged⟩ | ⟨last, expression, isLast, computes, computed⟩
    · rw [noLast]
      exact unchanged
    · rw [isLast]
      exact ⟨expression, computes, computed⟩
  · intro name
    rcases (new system constants).get?_afterAll lines name with
      ⟨noLast, unchanged⟩ | ⟨last, isLast, leaves⟩
    · have noEntry := unchanged.trans Store.get?_empty
      simp only [noLast, noEntry]
      simp
    · simp only [isLast, leaves.eq_label_iff, leaves.eq_lock_iff, leaves.eq_none_iff]
      simp

end Session

end Metrology

import Metrology.Proofs.Store.Entry
import Metrology.Session.Basic

/-!
# One line of a session

A command does one of the things that `Performs` lists, or fails without a trace for one of the
reasons that `Fails` lists. The check of its name, its evaluation and the writing of the store can
each fail, but all of them come before its first change to the session. Only the removal of a name
is tried first and fails afterwards, and then it has changed nothing.
-/

namespace Metrology

namespace Session

variable {α β : Type} (session : Session)

namespace Action

theorem run_bind (action : Action α) (rest : α → Action β) :
    (action >>= rest).run.run session =
      match action.run.run session with
      | (.ok value, next) => (rest value).run.run next
      | (.error error, next) => (.error error, next) := by
  change (ExceptT.bindCont rest (action.run.run session).1).run (action.run.run session).2 = _
  rcases action.run.run session with ⟨_ | _, next⟩ <;> rfl

theorem run_pure (value : α) : (pure value : Action α).run.run session = (.ok value, session) :=
  rfl

theorem run_get : (get : Action Session).run.run session = (.ok session, session) :=
  rfl

theorem run_modify (change : Session → Session) :
    (modify change : Action PUnit).run.run session = (.ok ⟨⟩, change session) :=
  rfl

theorem run_changeStore (change : StateM Store α) :
    (changeStore change).run.run session =
      (.ok (change.run session.store).1,
        { session with store := (change.run session.store).2 }) :=
  rfl

theorem run_lift (result : Except SessionError α) :
    (liftM result : Action α).run.run session = (result, session) := by
  cases result <;> rfl

end Action

/-- What a command that succeeds does to a session. -/
inductive Performs (session : Session) : Command → Response → Session → Prop where
  | assign {name : String} {expression : List String} {value : Quantity Float} {store : Store}
      (free : session.checkName name = .ok ())
      (computed : session.evaluate expression = .ok value)
      (stored : session.store.insert? name (.label value) = .ok store) :
      Performs session (.assign name expression) (.quantity value)
        { session with store := store, previous := value }
  | lock {name : String} {expression : List String} {store : Store}
      (free : session.checkName name = .ok ())
      (stored : session.store.insert? name (.lock expression) = .ok store) :
      Performs session (.lock name expression) (.text ("Locked " ++ name ++ "."))
        { session with store := store }
  | clear {name : String} (found : session.store.contains name = true) :
      Performs session (.clear name) (.text "Deleted value.")
        { session with store := session.store.erase name }
  | convert {expression : List String} {unit : String} {value : Quantity Float}
      {reading : Reading} (computed : session.evaluate expression = .ok value)
      (converted : value.readingIn? session.system unit = .ok reading) :
      Performs session (.convert expression unit) (.converted reading)
        { session with previous := value }
  | list : Performs session .list (.text session.listing) session
  | constants :
      Performs session .constants (.text (session.constants.listing session.system)) session
  | units : Performs session .units (.text session.system.listing) session
  | help : Performs session .help (.text helpText) session
  | quit : Performs session .quit .quit session
  | empty : Performs session .empty .nothing session
  | evaluate {expression : List String} {value : Quantity Float}
      (computed : session.evaluate expression = .ok value) :
      Performs session (.evaluate expression) (.quantity value) { session with previous := value }

/-- The reasons for which a command fails on a session. -/
inductive Fails (session : Session) : Command → SessionError → Prop where
  | assignName {name : String} {expression : List String} {error : SessionError}
      (notFree : session.checkName name = .error error) :
      Fails session (.assign name expression) error
  | assignValue {name : String} {expression : List String} {error : SessionError}
      (free : session.checkName name = .ok ())
      (noValue : session.evaluate expression = .error error) :
      Fails session (.assign name expression) error
  | assignStore {name : String} {expression : List String} {value : Quantity Float}
      {error : NameError} (free : session.checkName name = .ok ())
      (computed : session.evaluate expression = .ok value)
      (notStored : session.store.insert? name (.label value) = .error error) :
      Fails session (.assign name expression) (.name error)
  | lockName {name : String} {expression : List String} {error : SessionError}
      (notFree : session.checkName name = .error error) :
      Fails session (.lock name expression) error
  | lockStore {name : String} {expression : List String} {error : NameError}
      (free : session.checkName name = .ok ())
      (notStored : session.store.insert? name (.lock expression) = .error error) :
      Fails session (.lock name expression) (.name error)
  | clear {name : String} (notFound : session.store.contains name = false) :
      Fails session (.clear name) (.unknownName name)
  | convertValue {expression : List String} {unit : String} {error : SessionError}
      (noValue : session.evaluate expression = .error error) :
      Fails session (.convert expression unit) error
  | convertReading {expression : List String} {unit : String} {value : Quantity Float}
      {error : QuantityError} (computed : session.evaluate expression = .ok value)
      (notConverted : value.readingIn? session.system unit = .error error) :
      Fails session (.convert expression unit) (.quantity error)
  | evaluate {expression : List String} {error : SessionError}
      (noValue : session.evaluate expression = .error error) :
      Fails session (.evaluate expression) error

/-- A command fails and leaves the session as it was, or it succeeds in one of the listed ways. -/
theorem perform_cases (command : Command) :
    (∃ error, (perform command).run.run session = (.error error, session) ∧
        Fails session command error) ∨
      ∃ response next, (perform command).run.run session = (.ok response, next) ∧
        Performs session command response next := by
  cases command with
  | assign name expression =>
      simp only [perform, Action.run_bind, Action.run_get, Action.run_lift, Action.run_modify,
        Action.run_pure]
      cases free : session.checkName name with
      | error error => exact .inl ⟨error, rfl, .assignName free⟩
      | ok _ =>
          dsimp only
          cases computed : session.evaluate expression with
          | error error => exact .inl ⟨error, rfl, .assignValue free computed⟩
          | ok value =>
              dsimp only
              cases stored : session.store.insert? name (.label value) with
              | error error => exact .inl ⟨.name error, rfl, .assignStore free computed stored⟩
              | ok store => exact .inr ⟨_, _, rfl, .assign free computed stored⟩
  | lock name expression =>
      simp only [perform, Action.run_bind, Action.run_get, Action.run_lift, Action.run_modify,
        Action.run_pure]
      cases free : session.checkName name with
      | error error => exact .inl ⟨error, rfl, .lockName free⟩
      | ok _ =>
          dsimp only
          cases stored : session.store.insert? name (.lock expression) with
          | error error => exact .inl ⟨.name error, rfl, .lockStore free stored⟩
          | ok store => exact .inr ⟨_, _, rfl, .lock free stored⟩
  | clear name =>
      simp only [perform, Action.run_bind, Action.run_changeStore, Store.run_remove_eq]
      cases found : session.store.contains name with
      | false =>
          -- The store has been changed in place by now, into itself.
          rw [Store.erase_of_not_contains found]
          exact .inl ⟨.unknownName name, rfl, .clear found⟩
      | true => exact .inr ⟨_, _, rfl, .clear found⟩
  | convert expression unit =>
      simp only [perform, Action.run_bind, Action.run_get, Action.run_lift, Action.run_modify,
        Action.run_pure]
      cases computed : session.evaluate expression with
      | error error => exact .inl ⟨error, rfl, .convertValue computed⟩
      | ok value =>
          dsimp only
          cases converted : value.readingIn? session.system unit with
          | error error => exact .inl ⟨.quantity error, rfl, .convertReading computed converted⟩
          | ok reading => exact .inr ⟨_, _, rfl, .convert computed converted⟩
  | list => exact .inr ⟨_, _, rfl, .list⟩
  | constants => exact .inr ⟨_, _, rfl, .constants⟩
  | units => exact .inr ⟨_, _, rfl, .units⟩
  | help => exact .inr ⟨_, _, rfl, .help⟩
  | quit => exact .inr ⟨_, _, rfl, .quit⟩
  | empty => exact .inr ⟨_, _, rfl, .empty⟩
  | evaluate expression =>
      simp only [perform, Action.run_bind, Action.run_get, Action.run_lift, Action.run_modify,
        Action.run_pure]
      cases computed : session.evaluate expression with
      | error error => exact .inl ⟨error, rfl, .evaluate computed⟩
      | ok value => exact .inr ⟨_, _, rfl, .evaluate computed⟩

/-- A line fails and leaves the session as it was, or it is read as a command that succeeds. -/
theorem respond_cases (line : String) :
    (∃ error, session.respond line = (.error error, session)) ∨
      ∃ command response next, Command.ofLine line = .ok command ∧
        session.respond line = (.ok response, next) ∧ Performs session command response next := by
  simp only [respond, execute, Action.run_bind, Action.run_lift]
  cases read : Command.ofLine line with
  | error missing => exact .inl ⟨.missingExpression missing.keyword, rfl⟩
  | ok command =>
      rcases session.perform_cases command with ⟨error, run, _⟩ | ⟨response, next, run, performs⟩
      · exact .inl ⟨error, run⟩
      · exact .inr ⟨command, response, next, rfl, run, performs⟩

theorem after_of_error {error : SessionError} {line : String}
    (failed : (session.respond line).1 = .error error) : session.after line = session := by
  rcases session.respond_cases line with ⟨_, run⟩ | ⟨_, _, _, _, run, _⟩
  · rw [after, run]
  · rw [run] at failed
    cases failed

/-- A line that fails is no command, or it is read as a command that fails. -/
theorem error_cases {error : SessionError} {line : String}
    (failed : (session.respond line).1 = .error error) :
    (∃ missing, Command.ofLine line = .error missing ∧
        error = .missingExpression missing.keyword) ∨
      ∃ command, Command.ofLine line = .ok command ∧ Fails session command error := by
  simp only [respond, execute, Action.run_bind, Action.run_lift] at failed
  cases read : Command.ofLine line with
  | error missing =>
      rw [read] at failed
      cases failed
      exact .inl ⟨missing, rfl, rfl⟩
  | ok command =>
      rw [read] at failed
      change ((perform command).run.run session).1 = _ at failed
      rcases session.perform_cases command with ⟨other, run, fails⟩ | ⟨_, _, run, _⟩
      · rw [run] at failed
        cases failed
        exact .inr ⟨command, rfl, fails⟩
      · rw [run] at failed
        cases failed

end Session

end Metrology

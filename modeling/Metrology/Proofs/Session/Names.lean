import Metrology.Proofs.Constants.Lookup
import Metrology.Proofs.Expression.Caching
import Metrology.Proofs.Session.History
import Metrology.Proofs.Store.Name

/-!
# Stored names in a session

Every name in the store of a session has passed the check of the session, for a line stores nothing
under any other and the constants never change. So what is stored is reached by its name alone, is
cleared by its name alone, and takes nothing from the words, powers and literals of the language.
-/

namespace Metrology

namespace Environment

variable {environment : Environment} {name : String} {entry : Entry}

/-- The outcome of an entry under a name: a label has its quantity, and a lock has the value of its
tokens, with its own name in progress. -/
def expand (environment : Environment) (name : String) : Entry → Except EvalError (Quantity Float)
  | .label quantity => .ok quantity
  | .lock tokens => Expression.reduce (environment.resolve [name]) environment.previous tokens

/-- A stored name that is no constant has the outcome of its entry. -/
theorem resolve_of_get? (noConstant : environment.constants.get? name = none)
    (found : environment.store.get? name = some entry) :
    environment.resolve [] name = environment.expand name entry := by
  cases entry with
  | label quantity =>
      refine resolve_of_value ?_
      simp only [meaning, noConstant, found]
  | lock tokens =>
      refine resolve_of_notMem ?_ (by simp)
      simp only [meaning, noConstant, found]

/-- What is not stored has the value of a constant or of a literal. -/
theorem resolve_of_get?_eq_none (noEntry : environment.store.get? name = none)
    (chain : List String) :
    environment.resolve chain name =
      match environment.constants.get? name with
      | some quantity => .ok quantity
      | none => EvalError.ofQuantity (Quantity.parse environment.system name) := by
  cases isConstant : environment.constants.get? name with
  | some quantity => exact resolve_of_value (by simp only [meaning, isConstant])
  | none => exact resolve_of_literal (by simp only [meaning, isConstant, noEntry])

end Environment

namespace Session

variable {session next : Session} {command : Command} {response : Response}
  {line name token : String} {expression : List String} {entry : Entry}

theorem checkName_eq_ok_iff :
    session.checkName name = .ok () ↔
      session.constants.contains name = false ∧ Name.check name = .ok () := by
  unfold checkName
  cases session.constants.contains name with
  | true => simp
  | false => cases Name.check name <;> simp [SessionError.ofName]

theorem checkName_congr (sameConstants : next.constants = session.constants) :
    next.checkName name = session.checkName name := by
  rw [checkName, checkName, sameConstants]

/-- Whether whatever is stored has a name that may be stored. -/
def IsChecked (session : Session) : Prop :=
  ∀ name entry, session.store.get? name = some entry → session.checkName name = .ok ()

theorem isChecked_new (system : UnitSystem) (constants : Constants) :
    (new system constants).IsChecked := by
  intro name entry found
  cases Store.get?_empty.symm.trans found

/-- A command keeps all stored names checked: it stores only a name that it has checked. -/
theorem isKept_isChecked : IsKept IsChecked := by
  intro session next line command response _ performs checked name entry found
  rw [checkName_congr performs.constants_eq]
  by_cases names : command.named? = some name
  · have leaves := performs.leaves names
    rw [found] at leaves
    cases leaves with
    | label =>
        cases performs with
        | assign free _ _ => exact free
    | lock =>
        cases performs with
        | lock free _ => exact free
  · rw [performs.get?_eq names] at found
    exact checked name entry found

theorem isChecked_afterAll (checked : session.IsChecked) (lines : List String) :
    (session.afterAll lines).IsChecked :=
  isKept_isChecked.afterAll checked lines

/-- What a session answers when an evaluation has an outcome, and what it keeps of it. -/
def conclude (session : Session) :
    Except EvalError (Quantity Float) → Except SessionError Response × Session
  | .ok value => (.ok (.quantity value), { session with previous := value })
  | .error error => (.error (.eval error), session)

theorem respond_of_evaluate (isCommand : Command.ofLine line = .ok (.evaluate expression)) :
    session.respond line = session.conclude (session.toEnvironment.evaluate expression) := by
  simp only [respond, execute, isCommand, SessionError.ofCommand, perform, Action.run_bind,
    Action.run_get, Action.run_lift, Action.run_modify, Action.run_pure, evaluate]
  cases session.toEnvironment.evaluate expression <;> rfl

theorem respond_of_clear (isCommand : Command.ofLine line = .ok (.clear name))
    (stored : session.store.contains name = true) :
    session.respond line =
      (.ok (.text "Deleted value."), { session with store := session.store.erase name }) := by
  simp only [respond, execute, isCommand, SessionError.ofCommand, perform, Action.run_bind,
    Action.run_lift, Action.run_changeStore, Store.run_remove_eq, stored]
  rfl

/-- A line that is a stored name is answered by the outcome of its entry. -/
theorem respond_of_get? (free : session.checkName name = .ok ())
    (found : session.store.get? name = some entry) :
    session.respond name = session.conclude (session.expand name entry) := by
  rcases checkName_eq_ok_iff.mp free with ⟨notConstant, isName⟩
  rw [respond_of_evaluate (Command.ofLine_of_check isName),
    Environment.evaluate_singleton (Environment.ofString_of_check isName),
    Environment.resolve_of_get? (Constants.get?_eq_none notConstant) found]

/-- The tokens that mean something by themselves: the reserved words, the powers, and whatever is
read as a literal. -/
inductive HasOwnMeaning (system : UnitSystem) (token : String) : Prop where
  | reserved (member : token ∈ Name.reservedWords)
  | power (caret : token.toList.head? = some '^')
  | literal (isLiteral : Quantity.parse system token ≠ .error (.malformedLiteral token))

theorem HasOwnMeaning.check_ne_ok {system : UnitSystem} (own : HasOwnMeaning system token) :
    Name.check token ≠ .ok () := by
  intro isName
  cases own with
  | reserved member => exact Name.notReserved_of_check isName member
  | power caret => exact Name.noCaret_of_check isName caret
  | literal isLiteral => exact isLiteral (Name.parse_of_check isName system)

/-- Nothing is stored under a constant's name or a token with a meaning of its own. -/
theorem get?_eq_none_of_reserved (checked : session.IsChecked)
    (own : session.constants.contains token = true ∨ HasOwnMeaning session.system token) :
    session.store.get? token = none := by
  cases found : session.store.get? token with
  | none => rfl
  | some entry =>
      rcases checkName_eq_ok_iff.mp (checked token entry found) with ⟨notConstant, isName⟩
      rcases own with isConstant | own
      · rw [notConstant] at isConstant
        cases isConstant
      · exact absurd isName own.check_ne_ok

/-- An expression of constants and of tokens with a meaning of their own has the outcome that it has
where nothing is stored. -/
theorem evaluate_of_own_meaning (checked : session.IsChecked)
    (own : ∀ token ∈ expression,
      session.constants.contains token = true ∨ HasOwnMeaning session.system token) :
    session.evaluate expression = { session with store := .empty }.evaluate expression := by
  refine congrArg SessionError.ofEval (Expression.reduce_congr fun token member _ => ?_)
  have noEntry := get?_eq_none_of_reserved checked (own token member)
  rw [Environment.resolve_of_get?_eq_none noEntry,
    Environment.resolve_of_get?_eq_none Store.get?_empty]

/-- Stored names never collide with the rest of the language. In every session that began as a new
one, a stored name stands for a label or a lock but not both, names no constant, is no reserved
word, power or literal but an operand, and as a line of its own it asks for its value and gets the
outcome of its entry. Clearing it succeeds and changes nothing but its entry. Conversely an
expression without stored names means what it means where nothing is stored. -/
theorem stored_names_never_collide (system : UnitSystem) (constants : Constants)
    (lines : List String) :
    let session := (new system constants).afterAll lines
    (∀ name, session.store.contains name = true →
      Xor (name ∈ session.store.labels.map Prod.fst) (name ∈ session.store.locks.map Prod.fst) ∧
      constants.contains name = false ∧
      name ∉ Name.reservedWords ∧
      name.toList.head? ≠ some '^' ∧
      Token.ofString name = .operand ∧
      Quantity.parse system name = .error (.malformedLiteral name) ∧
      Command.ofLine name = .ok (.evaluate [name]) ∧
      (∀ quantity, (name, quantity) ∈ session.store.labels →
        session.respond name = (.ok (.quantity quantity), { session with previous := quantity })) ∧
      (∀ tokens, (name, tokens) ∈ session.store.locks →
        session.respond name = session.conclude
          (Expression.reduce (session.resolve [name]) session.previous tokens)) ∧
      session.respond ("clear " ++ name) =
        (.ok (.text "Deleted value."), { session with store := session.store.erase name }) ∧
      (session.store.erase name).get? name = none ∧
      ∀ other ≠ name, (session.store.erase name).get? other = session.store.get? other) ∧
    ∀ expression,
      (∀ token ∈ expression, constants.contains token = true ∨ HasOwnMeaning system token) →
      session.evaluate expression =
        { new system constants with previous := session.previous }.evaluate expression := by
  intro session
  have checked : session.IsChecked := isChecked_afterAll (isChecked_new system constants) lines
  have sameSystem : session.system = system := system_afterAll _ lines
  have sameConstants : session.constants = constants := constants_afterAll _ lines
  constructor
  · intro name stored
    rcases Store.contains_iff.mp stored with ⟨entry, found⟩
    have free := checked name entry found
    rcases checkName_eq_ok_iff.mp free with ⟨notConstant, isName⟩
    refine ⟨Store.xor_of_contains stored, sameConstants ▸ notConstant,
      Name.notReserved_of_check isName, Name.noCaret_of_check isName,
      Environment.ofString_of_check isName, Name.parse_of_check isName system,
      Command.ofLine_of_check isName, ?_, ?_,
      respond_of_clear (Command.ofLine_clear_of_check isName) stored, ?_, ?_⟩
    · intro quantity isLabel
      exact respond_of_get? free (Store.mem_labels_iff.mp isLabel)
    · intro tokens isLock
      exact respond_of_get? free (Store.mem_locks_iff.mp isLock)
    · rw [Store.get?_erase, if_pos rfl]
    · intro other different
      rw [Store.get?_erase, if_neg different.symm]
  · intro expression own
    have sameOwn : ∀ token ∈ expression,
        session.constants.contains token = true ∨ HasOwnMeaning session.system token := by
      rw [sameConstants, sameSystem]
      exact own
    rw [evaluate_of_own_meaning checked sameOwn]
    change evaluate ⟨⟨session.system, session.constants, .empty, session.previous⟩⟩ expression = _
    rw [sameSystem, sameConstants]
    rfl

/-- After a label and a lock have been stored, both are reached by their names, and a power of a
literal is what it was. -/
theorem stored_names_never_collide_double :
    let session := (new ⟨[], []⟩ .empty).afterAll ["a is 2", "b lock a a +"]
    session.store.contains "a" = true ∧ session.store.contains "b" = true ∧
      Command.ofLine "a" = .ok (.evaluate ["a"]) ∧
      session.respond "b" = session.conclude
        (Expression.reduce (session.resolve ["b"]) session.previous ["a", "a", "+"]) ∧
      session.evaluate ["3", "^2"] =
        { new ⟨[], []⟩ .empty with previous := session.previous }.evaluate ["3", "^2"] := by
  have never := stored_names_never_collide ⟨[], []⟩ .empty ["a is 2", "b lock a a +"]
  have storedLabel : ((new ⟨[], []⟩ .empty).afterAll
      ["a is 2", "b lock a a +"]).store.contains "a" = true := by
    decide +kernel
  have storedLock : ((new ⟨[], []⟩ .empty).afterAll
      ["a is 2", "b lock a a +"]).store.contains "b" = true := by
    decide +kernel
  have isLock : ("b", ["a", "a", "+"]) ∈ ((new ⟨[], []⟩ .empty).afterAll
      ["a is 2", "b lock a a +"]).store.locks := by
    decide +kernel
  rcases never.1 "a" storedLabel with ⟨_, _, _, _, _, _, isEvaluation, _⟩
  rcases never.1 "b" storedLock with ⟨_, _, _, _, _, _, _, _, ofLock, _⟩
  refine ⟨storedLabel, storedLock, isEvaluation, ofLock _ isLock, never.2 _ fun token member => ?_⟩
  simp only [List.mem_cons, List.not_mem_nil, or_false] at member
  rcases member with rfl | rfl
  · exact .inr (.literal (by decide +kernel))
  · exact .inr (.power rfl)

end Session

end Metrology

import Metrology.Expression.Evaluation
import Metrology.Session.Command
import Metrology.Session.Help

/-!
# Sessions

A session is the state of one user: the unit system and the constants in use, the stored values and
the previous answer. `Session.execute` runs one line of input on the session in place, and
`Session.respond` gives its response or error together with the session that it leaves behind. A
line may fail at several points, all of them before its first change to the session.
-/

namespace Metrology

/-- The reasons for which a line fails. -/
inductive SessionError where
  | constantName (name : String)
  | name (error : NameError)
  | unknownName (name : String)
  | missingExpression (keyword : String)
  | eval (error : EvalError)
  | quantity (error : QuantityError)
deriving DecidableEq, Repr

namespace SessionError

def message : SessionError → String
  | constantName text => "\"" ++ text ++ "\" is reserved for a constant"
  | name error => error.message
  | unknownName text => "No value or lock named \"" ++ text ++ "\""
  | missingExpression keyword => "Missing expression after \"" ++ keyword ++ "\""
  | eval error => error.message
  | quantity error => error.message

/-- The reading of a line, with its error as one of the session. -/
def ofCommand {α : Type} : Except MissingExpression α → Except SessionError α
  | .ok result => .ok result
  | .error missing => .error (.missingExpression missing.keyword)

/-- The result of storing a name, with its error as one of the session. -/
def ofName {α : Type} : Except NameError α → Except SessionError α
  | .ok result => .ok result
  | .error error => .error (.name error)

/-- The result of an evaluation, with its error as one of the session. -/
def ofEval {α : Type} : Except EvalError α → Except SessionError α
  | .ok result => .ok result
  | .error error => .error (.eval error)

/-- The result of a conversion, with its error as one of the session. -/
def ofQuantity {α : Type} : Except QuantityError α → Except SessionError α
  | .ok result => .ok result
  | .error error => .error (.quantity error)

end SessionError

/-- What a line produces. -/
inductive Response where
  | quantity (quantity : Quantity Float)
  | converted (reading : Reading)
  | text (text : String)
  | quit
  | nothing

inductive OutputMode where
  | text
  | json
deriving DecidableEq, Repr

/-- The tables in use and the state of one user. The previous answer is part of the environment in
which expressions are evaluated. -/
structure Session extends Environment

namespace Session

/-- A session in which nothing has been stored or computed. -/
def new (system : UnitSystem) (constants : Constants) : Session where
  system := system
  constants := constants
  store := .empty
  previous := .dimensionless 0

/-- Whether a value may be stored under a name: it names no constant and has the form of a name. -/
def checkName (session : Session) (name : String) : Except SessionError Unit :=
  if session.constants.contains name then .error (.constantName name)
  else SessionError.ofName (Name.check name)

/-- The value of an expression in a session. -/
def evaluate (session : Session) (tokens : List String) :
    Except SessionError (Quantity Float) :=
  SessionError.ofEval (session.toEnvironment.evaluate tokens)

def listing (session : Session) : String :=
  session.store.listing fun quantity => (quantity.reading session.system).text

/-- What is done on a session in place. A failure keeps the changes made up to it. -/
abbrev Action := ExceptT SessionError (StateM Session)

/-- Changes the store of a session in place. -/
def changeStore {α : Type} (change : StateM Store α) : Action α := do
  let (result, store) := change.run (← get).store
  modify fun session => { session with store := store }
  return result

/-- Carries out a command. -/
def perform : Command → Action Response
  | .assign name expression => do
      (← get).checkName name
      let value ← (← get).evaluate expression
      let store ← SessionError.ofName ((← get).store.insert? name (.label value))
      modify fun session => { session with store := store }
      modify fun session => { session with previous := value }
      return .quantity value
  | .lock name expression => do
      (← get).checkName name
      let store ← SessionError.ofName ((← get).store.insert? name (.lock expression))
      modify fun session => { session with store := store }
      return .text ("Locked " ++ name ++ ".")
  | .clear name => do
      if ← changeStore (Store.remove name) then return .text "Deleted value."
      else throw (.unknownName name)
  | .convert expression unit => do
      let value ← (← get).evaluate expression
      let reading ← SessionError.ofQuantity (value.readingIn? (← get).system unit)
      modify fun session => { session with previous := value }
      return .converted reading
  | .list => return .text (← get).listing
  | .constants => return .text ((← get).constants.listing (← get).system)
  | .units => return .text (← get).system.listing
  | .help => return .text helpText
  | .quit => return .quit
  | .empty => return .nothing
  | .evaluate expression => do
      let value ← (← get).evaluate expression
      modify fun session => { session with previous := value }
      return .quantity value

/-- Reads a line and carries out its command. -/
def execute (line : String) : Action Response := do
  let command ← SessionError.ofCommand (Command.ofLine line)
  perform command

/-- The response to a line or the reason for which it fails, and the session after it. -/
def respond (session : Session) (line : String) : Except SessionError Response × Session :=
  (execute line).run.run session

/-- The session after a line. -/
def after (session : Session) (line : String) : Session :=
  (session.respond line).2

/-- The text of a response, if there is anything to show. -/
def render (session : Session) (mode : OutputMode) : Response → Option String
  | .quantity quantity =>
      let reading := quantity.reading session.system
      match mode with
      | .text => some reading.text
      | .json => some reading.json
  | .converted reading =>
      match mode with
      | .text => some reading.text
      | .json => some reading.json
  | .text text => some text
  | .quit | .nothing => none

end Session

end Metrology

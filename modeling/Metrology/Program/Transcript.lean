import Metrology.Config.Startup
import Metrology.Program.LogFilter

/-!
# The program

The program prints a banner and then answers its input line by line, each answer after a prompt,
until the input ends or a line asks it to quit. `Program.run` gives the whole output for a whole
input.
-/

namespace Metrology

/-- The answer to one line as it is printed, and the session after it. There is none after a line
that ends the session. A line that fails is answered by its error, and the session goes on. -/
def Session.turn? (session : Session) (mode : OutputMode) (line : String) :
    Option (Session × String) :=
  match session.respond line with
  | (.ok .quit, _) => none
  | (.ok response, next) =>
      match next.render mode response with
      | some text => some (next, text ++ "\n")
      | none => some (next, "")
  | (.error error, next) => some (next, "Math Error: " ++ error.message ++ "\n")

namespace Program

def banner : String :=
  "PhysiCalc 0.1.0\nType \"help\" for usage.\n"

/-- A line without the carriage return at its end, if it has one there. -/
def dropReturn (line : List Char) : List Char :=
  if line.getLast? = some '\r' then line.dropLast else line

/-- The lines of an input. A line ends at a line feed, and a carriage return before it belongs to
its end; what follows the last line feed is a line if it is not empty. -/
def inputLines (input : String) : List String :=
  let pieces := input.toList.splitOn '\n'
  let complete := pieces.dropLast.map dropReturn
  let rest := pieces.getLastD []
  (if rest.isEmpty then complete else complete ++ [rest]).map String.ofList

/-- What is printed after the banner: a prompt before each line and before the end of the input, and
after each prompt the answer to the line. -/
def transcript (config : Config) (session : Session) : List String → String
  | [] => config.prompt
  | line :: rest =>
      match session.turn? config.output line with
      | none => config.prompt
      | some (next, answer) => config.prompt ++ answer ++ transcript config next rest

/-- The configuration and the session that the program starts with, if it starts at all. The first
argument names the settings file. Which filters the log takes is left open. -/
def startWith? (accepts : String → Bool) (directory : Directory) (arguments : List String) :
    Option (Config × Session) := do
  let config ← (Config.load directory arguments.head?).toOption
  if accepts config.logFilter then
    let session ← (Session.ofConfig directory config).toOption
    return (config, session)
  else none

def start? (directory : Directory) (arguments : List String) : Option (Config × Session) :=
  startWith? LogFilter.isValid directory arguments

/-- What a run of the program leaves behind. -/
structure Outcome where
  output : String
  status : Nat

/-- A whole run of the program. One that cannot start prints nothing and fails. -/
def runWith (accepts : String → Bool) (directory : Directory) (arguments : List String)
    (input : String) : Outcome :=
  match startWith? accepts directory arguments with
  | none => ⟨"", 1⟩
  | some (config, session) => ⟨banner ++ transcript config session (inputLines input), 0⟩

def run (directory : Directory) (arguments : List String) (input : String) : Outcome :=
  runWith LogFilter.isValid directory arguments input

end Program

end Metrology

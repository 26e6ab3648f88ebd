import Metrology.Program.Transcript

/-!
# Command line

The program on standard input and output. The files that a start may need are read first; from then
on each line is answered as it comes.
-/

namespace Metrology.Program

/-- The files at the given paths that can be read. -/
def readFiles (paths : List String) : IO Directory := do
  let files ← paths.filterMapM fun (path : String) => do
    try
      let content ← IO.FS.readFile path
      return some (path, content)
    catch _ => return none
  return ⟨files⟩

/-- The files that a start with the given arguments may need: the settings file and the tables that
it names. -/
def filesFor (arguments : List String) : IO Directory := do
  let settings ← readFiles [arguments.headD Config.defaultFile]
  match Config.load settings arguments.head? with
  | .error _ => return settings
  | .ok config =>
      let tables ←
        readFiles ([config.unitsPath, config.prefixesPath, config.constantsPath].filterMap id)
      return ⟨settings.files ++ tables.files⟩

/-- Prompts for lines and answers them until the input ends or a line ends the session. -/
partial def converse (config : Config) (session : Session) : IO Unit := do
  let output ← IO.getStdout
  output.putStr config.prompt
  output.flush
  let line ← (← IO.getStdin).getLine
  if line.isEmpty then return
  match session.turn? config.output line with
  | none => return
  | some (next, answer) =>
      output.putStr answer
      converse config next

end Metrology.Program

open Metrology in
/-- Runs the program and gives its exit status. -/
def main (arguments : List String) : IO UInt32 := do
  match Program.start? (← Program.filesFor arguments) arguments with
  | none =>
      IO.eprintln "The program cannot start with this configuration."
      return 1
  | some (config, session) =>
      IO.print Program.banner
      Program.converse config session
      return 0

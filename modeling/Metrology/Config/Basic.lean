import Metrology.Session.Basic
import Metrology.Settings.Document

/-!
# Configuration

A settings file can change the prompt, the filter of the log, the form of the output and the tables
in use. Every setting has a default, and keys without a meaning are ignored.
-/

namespace Metrology

structure Config where
  prompt : String := ">>>: "
  logFilter : String := "warn"
  output : OutputMode := .text
  unitsPath : Option String := none
  prefixesPath : Option String := none
  constantsPath : Option String := none
deriving DecidableEq

namespace Config

/-- The text under a key, or the default where the key is missing. A value that is no text is
refused. -/
def textOr? (entries : Settings.Entries) (key default : String) : Option String :=
  match entries.get? key with
  | none => some default
  | some (.text content) => some content
  | some _ => none

/-- The path under a key, if there is one. A value that is no text is refused. -/
def path? (entries : Settings.Entries) (key : String) : Option (Option String) :=
  match entries.get? key with
  | none => some none
  | some (.text content) => some (some content)
  | some _ => none

def modeOf? (name : String) : Option OutputMode :=
  if name = "text" then some .text
  else if name = "json" then some .json
  else none

/-- The form of output that a value names: its name as a text, or a table whose only key is the name
and holds nothing. -/
def readMode? : Settings.Value → Option OutputMode
  | .text name => modeOf? name
  | .table _ [(name, .table _ [])] => modeOf? name
  | .table _ [(name, .array [])] => modeOf? name
  | _ => none

/-- The configuration that the entries of a settings file describe. -/
def ofEntries? (entries : Settings.Entries) : Option Config := do
  return {
    prompt := ← textOr? entries "prompt" ">>>: "
    logFilter := ← textOr? entries "log_level" "warn"
    output := ← (entries.get? "output").elim (some .text) readMode?
    unitsPath := ← path? entries "units_path"
    prefixesPath := ← path? entries "prefixes_path"
    constantsPath := ← path? entries "constants_path"
  }

def ofText? (text : String) : Option Config := do
  ofEntries? (← Settings.Document.read? text)

end Config

end Metrology

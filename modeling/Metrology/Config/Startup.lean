import Metrology.Config.Basic
import Metrology.Table.Constants
import Metrology.Table.Units

/-!
# Start from files

A session is set up from files of one directory: a settings file and the tables it names. The
directory is given as a value, so that all that depends on it can be stated of it. Tables are opened
before any is read, but for the constants, which are opened once the units are known.
-/

namespace Metrology

/-- The files of a directory, with their contents. -/
structure Directory where
  files : List (String × String)

namespace Directory

/-- The characters of a path without the steps that stay in the directory. -/
def simplify : List Char → List Char
  | '.' :: '/' :: path => simplify path
  | path => path

/-- The content of the file at a path. -/
def read? (directory : Directory) (path : String) : Option String :=
  let target := simplify path.toList
  (directory.files.find? fun file => simplify file.1.toList == target).map Prod.snd

end Directory

/-- The reasons for which a session cannot be set up. -/
inductive ConfigError where
  | missingFile
  /-- The settings file is malformed, or a setting has a value of the wrong kind. -/
  | malformed
  | table (error : TableError)
deriving DecidableEq, Repr

namespace ConfigError

/-- The text of the error of an impossible row in a table that the configuration names. -/
def rowMessage (line : Nat) (fault : RowFault) : String :=
  "Table error: " ++ TableError.rowMessage line fault

/-- The result of reading a table, with its error as one of the configuration. -/
def ofTable {α : Type} : Except TableError α → Except ConfigError α
  | .ok result => .ok result
  | .error error => .error (.table error)

end ConfigError

namespace Config

/-- The settings file that is read where none is named. -/
def defaultFile : String := "physicalc.toml"

/-- The configuration of a settings file that has to be there. -/
def ofFile (directory : Directory) (path : String) : Except ConfigError Config :=
  match directory.read? path with
  | none => .error .missingFile
  | some text =>
      match ofText? text with
      | some config => .ok config
      | none => .error .malformed

/-- The configuration of the settings file that is named, else of the default one, else, if that is
not there, the default configuration. -/
def load (directory : Directory) : Option String → Except ConfigError Config
  | some path => ofFile directory path
  | none =>
      if (directory.read? defaultFile).isSome then ofFile directory defaultFile else .ok {}

/-- The table that a setting names, if it names one. -/
def openTable (directory : Directory) : Option String → Except ConfigError (Option String)
  | none => .ok none
  | some path =>
      match directory.read? path with
      | some table => .ok (some table)
      | none => .error .missingFile

end Config

/-- The session that a configuration describes. -/
def Session.ofConfig (directory : Directory) (config : Config) : Except ConfigError Session := do
  let unitTable ← Config.openTable directory config.unitsPath
  let prefixTable ← Config.openTable directory config.prefixesPath
  let system ← ConfigError.ofTable (UnitSystem.ofTables unitTable prefixTable)
  let constantTable ← Config.openTable directory config.constantsPath
  let constants ← ConfigError.ofTable (Constants.ofTable system constantTable)
  return .new system constants

def UnitSystem.ofFiles (directory : Directory) (unitsPath prefixesPath : String) :
    Except TableError UnitSystem :=
  match directory.read? unitsPath, directory.read? prefixesPath with
  | some unitTable, some prefixTable => ofTables (some unitTable) (some prefixTable)
  | _, _ => .error .missingFile

def Constants.ofFile (directory : Directory) (system : UnitSystem) (path : String) :
    Except TableError Constants :=
  match directory.read? path with
  | some table => ofTable system (some table)
  | none => .error .missingFile

end Metrology

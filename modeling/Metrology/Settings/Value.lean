/-!
# Values in a settings file

A settings file is a table of values, written in TOML. Only texts, tables and whether a list is
empty matter to the program, so numbers, truth values and dates are not told apart here.

A table can be written down in several places. `Origin` records how a table came about, because that
decides what may still be added to it.
-/

namespace Metrology.Settings

/-- How a table came about. -/
inductive Origin where
  /-- It was written between braces and is complete. -/
  | inline
  /-- It was only named as the parent of another table. -/
  | implicit
  /-- It was named in a dotted key. -/
  | dotted
  /-- It has a header of its own. -/
  | header
deriving DecidableEq, Repr

inductive Value where
  | text (content : String)
  | scalar
  | array (items : List Value)
  | table (origin : Origin) (entries : List (String × Value))
  | tables (items : List (List (String × Value)))

/-- The entries of a table, in the order in which they were first written. -/
abbrev Entries := List (String × Value)

namespace Entries

def get? (entries : Entries) (key : String) : Option Value :=
  (entries.find? fun entry => entry.1 == key).map Prod.snd

/-- The entries with another value for a key that they have. -/
def replace (entries : Entries) (key : String) (value : Value) : Entries :=
  entries.map fun entry => if entry.1 == key then (key, value) else entry

/-- The entries with a value for a key that they do not have. -/
def add? (entries : Entries) (key : String) (value : Value) : Option Entries :=
  match entries.get? key with
  | none => some (entries ++ [(key, value)])
  | some _ => none

/-- The entries with the table at a path changed. Tables on the way that are missing are made, and
of the tables of a repeated header the last one is meant. No table between braces may be entered. A
dotted key may not pass through a table with a header, and the table it ends in must itself come
from a dotted key. -/
def update? (change : Entries → Option Entries) (isDotted : Bool) :
    List String → Entries → Option Entries
  | [], entries => change entries
  | key :: path, entries =>
      match entries.get? key with
      | none => do
          let inner ← update? change isDotted path []
          entries.add? key (.table (if isDotted then .dotted else .implicit) inner)
      | some (.table origin inner) =>
          let closed :=
            origin = .inline ∨
              (isDotted ∧ (origin = .header ∨ (path.isEmpty ∧ origin ≠ .dotted)))
          if closed then none
          else (update? change isDotted path inner).map fun next =>
            entries.replace key (.table origin next)
      | some (.tables items) =>
          if isDotted ∧ path.isEmpty then none
          else do
            let last ← items.getLast?
            let next ← update? change isDotted path last
            return entries.replace key (.tables (items.dropLast ++ [next]))
      | some _ => none

/-- The entries with a value under a dotted key. -/
def insert? (entries : Entries) (path : List String) (key : String) (value : Value) :
    Option Entries :=
  update? (fun inner => inner.add? key value) true path entries

/-- The entries with the table of a header, which may so far only have been implied. -/
def open? (entries : Entries) (path : List String) (key : String) : Option Entries :=
  update?
    (fun inner =>
      match inner.get? key with
      | none => inner.add? key (.table .header [])
      | some (.table .implicit known) => some (inner.replace key (.table .header known))
      | some _ => none)
    false path entries

/-- The entries with one more table of a repeated header. -/
def append? (entries : Entries) (path : List String) (key : String) : Option Entries :=
  update?
    (fun inner =>
      match inner.get? key with
      | none => inner.add? key (.tables [[]])
      | some (.tables items) => some (inner.replace key (.tables (items ++ [[]])))
      | some _ => none)
    false path entries

end Entries

end Metrology.Settings

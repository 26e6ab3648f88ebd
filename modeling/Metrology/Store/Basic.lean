import Std.Data.TreeMap
import Metrology.Quantity.Basic
import Metrology.Store.Name

/-!
# Stored values

A store keeps labels and locks in two maps. A label is a quantity; a lock is an expression that is
evaluated anew at every use. A name is never both: whatever is stored under a name takes the place
of what the other map has under it. Each map is listed by name, in the order of the characters.

`Store.put`, `Store.remove` and `Store.clear` change a store in place. `Store.insert?` and
`Store.erase` give the store after such a change.
-/

namespace Metrology

/-- What a name stands for. -/
inductive Entry where
  | label (quantity : Quantity Float)
  | lock (tokens : List String)

/-- Named values. -/
structure Store where
  /-- The quantities of the labels. -/
  quantities : Std.TreeMap String (Quantity Float) := ∅
  /-- The tokens of the locks. -/
  expressions : Std.TreeMap String (List String) := ∅
  exclusive : ∀ name, name ∈ quantities → name ∉ expressions := by simp

namespace Store

def empty : Store := {}

/-- The quantity that a name is a label for. -/
def label? (store : Store) (name : String) : Option (Quantity Float) :=
  store.quantities[name]?

/-- The tokens that a name is a lock for. -/
def lock? (store : Store) (name : String) : Option (List String) :=
  store.expressions[name]?

def get? (store : Store) (name : String) : Option Entry :=
  match store.label? name with
  | some quantity => some (.label quantity)
  | none => (store.lock? name).map .lock

theorem label?_eq_some_iff {store : Store} {name : String} {quantity : Quantity Float} :
    store.label? name = some quantity ↔ store.get? name = some (.label quantity) := by
  unfold get?
  split <;> simp_all

/-- A name that is a lock is no label. -/
theorem label?_eq_none_of_lock? {store : Store} {name : String} {tokens : List String}
    (isLock : store.lock? name = some tokens) : store.label? name = none := by
  have inExpressions : name ∈ store.expressions := by
    rw [Std.TreeMap.mem_iff_isSome_getElem?]
    exact Option.isSome_of_eq_some isLock
  exact Std.TreeMap.getElem?_eq_none fun inQuantities =>
    store.exclusive name inQuantities inExpressions

theorem lock?_eq_some_iff {store : Store} {name : String} {tokens : List String} :
    store.lock? name = some tokens ↔ store.get? name = some (.lock tokens) := by
  constructor
  · intro isLock
    rw [get?, label?_eq_none_of_lock? isLock, isLock]
    rfl
  · intro found
    unfold get? at found
    split at found <;> simp_all

/-- A name that is put into one map and taken out of the other is not in both. -/
theorem apart_of_insert_erase {α β : Type} {left : Std.TreeMap String α}
    {right : Std.TreeMap String β} (apart : ∀ name, name ∈ left → name ∉ right) (name : String)
    (value : α) : ∀ other, other ∈ left.insert name value → other ∉ right.erase name := by
  intro other inLeft inRight
  rw [Std.TreeMap.mem_insert] at inLeft
  rw [Std.TreeMap.mem_erase] at inRight
  rcases inLeft with isName | inLeft
  · exact inRight.1 isName
  · exact apart other inLeft inRight.2

/-- The store with an entry for a name in place of any other. -/
def write (store : Store) (name : String) : Entry → Store
  | .label quantity =>
      { quantities := store.quantities.insert name quantity
        expressions := store.expressions.erase name
        exclusive := apart_of_insert_erase store.exclusive name quantity }
  | .lock tokens =>
      { quantities := store.quantities.erase name
        expressions := store.expressions.insert name tokens
        exclusive := fun other inQuantities inExpressions =>
          apart_of_insert_erase (fun other isLock isLabel => store.exclusive other isLabel isLock)
            name tokens other inExpressions inQuantities }

def eraseLabel (store : Store) (name : String) : Store where
  quantities := store.quantities.erase name
  expressions := store.expressions
  exclusive := fun other inQuantities =>
    store.exclusive other (Std.TreeMap.mem_of_mem_erase inQuantities)

def eraseLock (store : Store) (name : String) : Store where
  quantities := store.quantities
  expressions := store.expressions.erase name
  exclusive := fun other inQuantities inExpressions =>
    store.exclusive other inQuantities (Std.TreeMap.mem_of_mem_erase inExpressions)

/-- What is done on a store in place. A failure keeps the changes made up to it. -/
abbrev Action := ExceptT NameError (StateM Store)

/-- Stores an entry under a name, provided that the text can be a name. -/
def put (name : String) (entry : Entry) : Action Unit := do
  Name.check name
  modify fun store => store.write name entry

/-- Removes what is stored under a name, and tells whether there was anything. The locks are looked
at only where there is no label, and without either the store is left alone. -/
def remove (name : String) : StateM Store Bool := do
  if (← get).quantities.contains name then
    modify fun store => store.eraseLabel name
    return true
  else if (← get).expressions.contains name then
    modify fun store => store.eraseLock name
    return true
  else return false

def clear : StateM Store Unit :=
  set empty

/-- The store with an entry for a name in place of any other, provided that the text can be a
name. -/
def insert? (store : Store) (name : String) (entry : Entry) : Except NameError Store :=
  match (put name entry).run.run store with
  | (.ok _, next) => .ok next
  | (.error error, _) => .error error

def contains (store : Store) (name : String) : Bool :=
  store.quantities.contains name || store.expressions.contains name

/-- The store without an entry for a name. -/
def erase (store : Store) (name : String) : Store :=
  ((remove name).run store).2

/-- The labels in the order of their names. -/
def labels (store : Store) : List (String × Quantity Float) :=
  store.quantities.toList

/-- The locks in the order of their names. -/
def locks (store : Store) : List (String × List String) :=
  store.expressions.toList

def size (store : Store) : Nat :=
  store.quantities.size + store.expressions.size

def isEmpty (store : Store) : Bool :=
  store.quantities.isEmpty && store.expressions.isEmpty

/-- The listing of a store: a line for each label and then one for each lock. -/
def listing (store : Store) (display : Quantity Float → String) : String :=
  if store.isEmpty then "No stored values."
  else
    String.join <|
      "List of all values:" ::
        (store.labels.map fun (name, quantity) =>
          "\n\t\t" ++ name ++ " : " ++ display quantity) ++
        store.locks.map fun (name, tokens) =>
          "\n\t\t" ++ name ++ " := " ++ String.intercalate " " tokens

end Store

end Metrology

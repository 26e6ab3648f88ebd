import Metrology.Store.Basic

/-!
# Entries of a store

What a name stands for after a store has been changed, and the invariant of every store that is
built by its operations: whatever has an entry can be a name.
-/

namespace Metrology.Store

/-- Whether a store is made from the empty one by adding and removing entries. -/
inductive Built : Store → Prop where
  | empty : Built empty
  | insert {store next : Store} {name : String} {entry : Entry} (built : Built store)
      (isNext : store.insert? name entry = .ok next) : Built next
  | erase {store : Store} (name : String) (built : Built store) : Built (store.erase name)

variable {store next : Store} {name other : String} {entry : Entry}

/-- Storing fails before the first change, or it writes the entry. -/
theorem run_put :
    (put name entry).run.run store =
      match Name.check name with
      | .ok _ => (.ok (), store.write name entry)
      | .error error => (.error error, store) := by
  unfold put
  cases Name.check name <;> rfl

/-- Removing looks for a label first and for a lock only where there is no label. -/
theorem run_remove :
    (remove name).run store =
      (store.contains name,
        if store.quantities.contains name then store.eraseLabel name
        else if store.expressions.contains name then store.eraseLock name
        else store) := by
  unfold remove contains
  change (if store.quantities.contains name then _ else _ : StateM Store Bool).run store = _
  cases store.quantities.contains name with
  | true => rfl
  | false =>
      change (if store.expressions.contains name then _ else _ : StateM Store Bool).run store = _
      cases store.expressions.contains name <;> rfl

theorem run_remove_eq (store : Store) (name : String) :
    (remove name).run store = (store.contains name, store.erase name) := by
  rw [erase, run_remove]

theorem insert?_eq_ok_iff :
    store.insert? name entry = .ok next ↔
      Name.check name = .ok () ∧ next = store.write name entry := by
  unfold insert?
  rw [run_put]
  cases Name.check name <;> simp [eq_comm]

theorem exists_insert? (store : Store) (entry : Entry) (isName : Name.check name = .ok ()) :
    ∃ next, store.insert? name entry = .ok next :=
  ⟨_, insert?_eq_ok_iff.mpr ⟨isName, rfl⟩⟩

theorem get?_empty : empty.get? name = none := by
  simp [get?, label?, lock?, empty]

theorem get?_write :
    (store.write name entry).get? other =
      if name = other then some entry else store.get? other := by
  cases entry <;>
    simp only [get?, label?, lock?, write, Std.TreeMap.getElem?_insert, Std.TreeMap.getElem?_erase,
      Std.LawfulEqOrd.compare_eq_iff_eq] <;>
    by_cases same : name = other <;>
    simp [same]

theorem get?_of_insert? (isNext : store.insert? name entry = .ok next) :
    next.get? other = if name = other then some entry else store.get? other := by
  rcases insert?_eq_ok_iff.mp isNext with ⟨_, rfl⟩
  exact get?_write

/-- A store without an entry for a name is left as it is. -/
theorem erase_of_not_contains (notFound : store.contains name = false) :
    store.erase name = store := by
  rw [contains, Bool.or_eq_false_iff] at notFound
  simp [erase, run_remove, notFound]

theorem quantities_erase (isLabel : store.quantities.contains name = true) :
    (store.erase name).quantities = store.quantities.erase name := by
  rw [erase, run_remove, if_pos isLabel, eraseLabel]

theorem quantities_erase_of_not_contains (notLabel : ¬store.quantities.contains name = true) :
    (store.erase name).quantities = store.quantities := by
  rw [erase, run_remove, if_neg notLabel]
  split <;> rfl

/-- Where a label is removed the locks are not looked at, for a name that is a label is no lock. -/
theorem expressions_erase (isLock : store.expressions.contains name = true) :
    (store.erase name).expressions = store.expressions.erase name := by
  have notLabel : ¬store.quantities.contains name = true := fun isLabel =>
    store.exclusive name (Std.TreeMap.mem_iff_contains.mpr isLabel)
      (Std.TreeMap.mem_iff_contains.mpr isLock)
  rw [erase, run_remove, if_neg notLabel, if_pos isLock, eraseLock]

theorem expressions_erase_of_not_contains (notLock : ¬store.expressions.contains name = true) :
    (store.erase name).expressions = store.expressions := by
  rw [erase, run_remove, if_neg notLock]
  split <;> rfl

/-- What is left of a map without a name is the map itself if the name is not in it. -/
theorem getElem?_of_erase {α : Type} {entries left : Std.TreeMap String α}
    (isLeft : entries.contains name = true → left = entries.erase name)
    (isAll : ¬entries.contains name = true → left = entries) :
    left[other]? = if name = other then none else entries[other]? := by
  by_cases isEntry : entries.contains name = true
  · rw [isLeft isEntry, Std.TreeMap.getElem?_erase]
    simp only [Std.LawfulEqOrd.compare_eq_iff_eq]
  · rw [isAll isEntry]
    split
    · rename_i same
      exact same ▸ Std.TreeMap.getElem?_eq_none (isEntry ∘ Std.TreeMap.mem_iff_contains.mp)
    · rfl

theorem label?_erase :
    (store.erase name).label? other = if name = other then none else store.label? other :=
  getElem?_of_erase quantities_erase quantities_erase_of_not_contains

theorem lock?_erase :
    (store.erase name).lock? other = if name = other then none else store.lock? other :=
  getElem?_of_erase expressions_erase expressions_erase_of_not_contains

theorem get?_erase :
    (store.erase name).get? other = if name = other then none else store.get? other := by
  by_cases same : name = other <;> simp [get?, label?_erase, lock?_erase, same]

theorem Built.write (built : Built store) (entry : Entry) (isName : Name.check name = .ok ()) :
    Built (store.write name entry) :=
  .insert built (insert?_eq_ok_iff.mpr ⟨isName, rfl⟩)

/-- Whatever has an entry in a store can be a name. -/
theorem Built.check_eq_ok (built : Built store) (found : store.get? name = some entry) :
    Name.check name = .ok () := by
  induction built with
  | empty =>
      rw [get?_empty] at found
      cases found
  | insert _ isNext ih =>
      rw [get?_of_insert? isNext] at found
      split at found
      · rename_i same
        exact same ▸ (insert?_eq_ok_iff.mp isNext).1
      · exact ih found
  | erase _ _ ih =>
      rw [get?_erase] at found
      split at found
      · cases found
      · exact ih found

end Metrology.Store

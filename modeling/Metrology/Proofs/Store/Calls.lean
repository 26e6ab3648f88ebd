import Mathlib.Data.Finset.Card
import Mathlib.Data.List.Induction
import Mathlib.Data.String.Basic
import Metrology.Proofs.Store.Name

/-!
# A store as one map

A store keeps two maps, and yet it behaves as a single map from names to entries. After any calls on
an empty store a name stands for what the last call that settles it has left: the entry of a
successful write, or nothing after the name was removed or the store cleared. Calls that fail settle
nothing and change nothing.

One call is looked at by `get?_after`. It rests on the two maps having no name in common, which
every write restores and which lets a removal stop at the first map. The runs follow by induction.
-/

namespace Metrology

namespace Store

/-- A call that changes a store. -/
inductive Call where
  | put (name : String) (entry : Entry)
  | remove (name : String)
  | clear

namespace Call

/-- The store after a call, be it successful or not. -/
def after (store : Store) : Call → Store
  | put name entry => ((Store.put name entry).run.run store).2
  | remove name => ((Store.remove name).run store).2
  | clear => (Store.clear.run store).2

/-- What a call leaves under a name, provided that the call settles the name. -/
def leaves? (name : String) : Call → Option (Option Entry)
  | put other entry => if other = name ∧ Name.check name = .ok () then some (some entry) else none
  | remove other => if other = name then some none else none
  | clear => some none

end Call

def afterAll (store : Store) (calls : List Call) : Store :=
  calls.foldl Call.after store

/-- The entry that the last call to settle a name has left under it. -/
def settled? (calls : List Call) (name : String) : Option Entry :=
  (calls.reverse.findSome? (Call.leaves? name)).join

/-- Whether a store behaves as a single map. -/
structure IsMap (store : Store) (entryOf : String → Option Entry) : Prop where
  get? : ∀ name, store.get? name = entryOf name
  label? : ∀ name quantity,
    store.label? name = some quantity ↔ entryOf name = some (.label quantity)
  lock? : ∀ name tokens, store.lock? name = some tokens ↔ entryOf name = some (.lock tokens)
  exclusive : ∀ name, store.label? name = none ∨ store.lock? name = none
  size : ∃ names : Finset String,
    (∀ name, name ∈ names ↔ (entryOf name).isSome = true) ∧ store.size = names.card
  isEmpty : store.isEmpty = true ↔ store.size = 0
  labels : (store.labels.map Prod.fst).Pairwise (· < ·) ∧
    ∀ name quantity, (name, quantity) ∈ store.labels ↔ entryOf name = some (.label quantity)
  locks : (store.locks.map Prod.fst).Pairwise (· < ·) ∧
    ∀ name tokens, (name, tokens) ∈ store.locks ↔ entryOf name = some (.lock tokens)

variable {store : Store} {calls : List Call} {call : Call} {name : String} {entry : Entry}

/-- A call changes what it settles and nothing else. -/
theorem get?_after (store : Store) (call : Call) (name : String) :
    (call.after store).get? name = (call.leaves? name).getD (store.get? name) := by
  cases call with
  | put other entry =>
      rw [Call.after, run_put]
      by_cases same : other = name
      · subst same
        cases isName : Name.check other with
        | error error => simp [Call.leaves?, isName]
        | ok _ => simp [Call.leaves?, isName, get?_write]
      · cases Name.check other with
        | error error => simp [Call.leaves?, same]
        | ok _ => simp [Call.leaves?, same, get?_write]
  | remove other =>
      change (store.erase other).get? name = _
      by_cases same : other = name <;> simp [Call.leaves?, get?_erase, same]
  | clear => exact get?_empty

theorem afterAll_concat (store : Store) (calls : List Call) (call : Call) :
    store.afterAll (calls ++ [call]) = call.after (store.afterAll calls) := by
  simp only [afterAll, List.foldl_append, List.foldl_cons, List.foldl_nil]

theorem settled?_concat (calls : List Call) (call : Call) (name : String) :
    settled? (calls ++ [call]) name = (call.leaves? name).getD (settled? calls name) := by
  cases leaves : call.leaves? name <;> simp [settled?, leaves]

/-- After any calls a name stands for what the last call to settle it has left. -/
theorem get?_afterAll (calls : List Call) (name : String) :
    (empty.afterAll calls).get? name = settled? calls name := by
  induction calls using List.reverseRecOn with
  | nil => exact get?_empty
  | append_singleton calls call ih =>
      rw [afterAll_concat, get?_after, ih, settled?_concat]

theorem leaves?_eq_some_some_iff :
    call.leaves? name = some (some entry) ↔
      call = .put name entry ∧ Name.check name = .ok () := by
  cases call <;> simp [Call.leaves?]
  grind

/-- What stands under a name is the entry of its last successful write, and since then the name was
not removed and the store not cleared. -/
theorem settled?_eq_some_iff :
    settled? calls name = some entry ↔
      ∃ before later, calls = before ++ .put name entry :: later ∧ Name.check name = .ok () ∧
        ∀ call ∈ later, call.leaves? name = none := by
  rw [settled?, Option.join_eq_some_iff, List.findSome?_eq_some_iff]
  constructor
  · rintro ⟨later, call, before, isSplit, leaves, unsettled⟩
    rcases leaves?_eq_some_some_iff.mp leaves with ⟨rfl, isName⟩
    refine ⟨before.reverse, later.reverse, ?_, isName, ?_⟩
    · simpa using congrArg List.reverse isSplit
    · simpa using unsettled
  · rintro ⟨before, later, rfl, isName, unsettled⟩
    refine ⟨later.reverse, .put name entry, before.reverse, by simp, ?_, ?_⟩
    · exact leaves?_eq_some_some_iff.mpr ⟨rfl, isName⟩
    · simpa using unsettled

theorem pairwise_keys_lt {α : Type} (entries : Std.TreeMap String α) :
    (entries.toList.map Prod.fst).Pairwise (· < ·) := by
  rw [Std.TreeMap.map_fst_toList_eq_keys]
  apply Std.TreeMap.ordered_keys.imp
  intro left right isLess
  exact compare_lt_iff_lt.mp isLess

/-- The names of a store, each of them once. -/
def names (store : Store) : Finset String :=
  (store.quantities.keys ++ store.expressions.keys).toFinset

theorem mem_names_iff : name ∈ store.names ↔ (store.get? name).isSome = true := by
  rw [Option.isSome_iff_exists, ← contains_iff, contains, Bool.or_eq_true]
  simp [names]

/-- The two maps have no name in common, so there are as many names as entries in both. -/
theorem card_names (store : Store) : store.names.card = store.size := by
  have distinct : (store.quantities.keys ++ store.expressions.keys).Nodup := by
    apply List.Nodup.append Std.TreeMap.nodup_keys Std.TreeMap.nodup_keys
    intro name inQuantities inExpressions
    exact store.exclusive name (Std.TreeMap.mem_keys.mp inQuantities)
      (Std.TreeMap.mem_keys.mp inExpressions)
  rw [names, List.toFinset_card_of_nodup distinct, List.length_append, Std.TreeMap.length_keys,
    Std.TreeMap.length_keys, size]

/-- A store is the one map that it is read as. -/
theorem isMap_get? (store : Store) : store.IsMap store.get? where
  get? _ := rfl
  label? _ _ := label?_eq_some_iff
  lock? _ _ := lock?_eq_some_iff
  exclusive := by
    intro name
    cases isLock : store.lock? name with
    | none => exact .inr rfl
    | some tokens => exact .inl (label?_eq_none_of_lock? isLock)
  size := ⟨store.names, fun _ => mem_names_iff, store.card_names.symm⟩
  isEmpty := by
    simp [isEmpty, size, Std.TreeMap.isEmpty_eq_size_eq_zero]
  labels := ⟨pairwise_keys_lt store.quantities, fun _ _ => mem_labels_iff⟩
  locks := ⟨pairwise_keys_lt store.expressions, fun _ _ => mem_locks_iff⟩

/-- A store is one map. After any calls on an empty store, names stand for the entries that their
last successful writes gave them, unless the name was removed or the store cleared since then; and
look-ups, size and listings are those of this map. Storing under a reserved word or a text that is
no name fails and changes nothing. Removing tells whether the name stood for anything, and
afterwards neither map has it. -/
theorem refines_one_map (calls : List Call) :
    let store := empty.afterAll calls
    store.IsMap (settled? calls) ∧
      (∀ name entry, settled? calls name = some entry ↔
        ∃ before later, calls = before ++ .put name entry :: later ∧ Name.check name = .ok () ∧
          ∀ call ∈ later, call.leaves? name = none) ∧
      (∀ name entry, name ∈ Name.reservedWords →
        (put name entry).run.run store = (.error (.reserved name), store)) ∧
      (∀ name entry, name ∉ Name.reservedWords → Name.isWellFormed name.toList = false →
        (put name entry).run.run store = (.error (.invalid name), store)) ∧
      ∀ name,
        ((remove name).run store).1 = (settled? calls name).isSome ∧
          ((remove name).run store).2.label? name = none ∧
          ((remove name).run store).2.lock? name = none := by
  intro store
  have isSettled : store.get? = settled? calls := funext fun name => get?_afterAll calls name
  refine ⟨isSettled ▸ store.isMap_get?, fun name entry => settled?_eq_some_iff, ?_, ?_, ?_⟩
  · intro name entry isReserved
    rw [run_put]
    simp [Name.check, isReserved]
  · intro name entry notReserved illFormed
    rw [run_put]
    simp [Name.check, notReserved, illFormed]
  · intro name
    refine ⟨?_, ?_, ?_⟩
    · rw [run_remove, ← isSettled, Bool.eq_iff_iff, Option.isSome_iff_exists]
      exact contains_iff
    · change (store.erase name).label? name = none
      rw [label?_erase, if_pos rfl]
    · change (store.erase name).lock? name = none
      rw [lock?_erase, if_pos rfl]

end Store

end Metrology

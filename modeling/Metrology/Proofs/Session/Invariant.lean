import Metrology.Proofs.Expression.Invariant
import Metrology.Proofs.Session.History
import Metrology.UnitSystem.Builtin

/-!
# What every quantity of a session is like

A session holds the previous answer, labels and constants, and gives quantities as responses. Each
was a constant, is the zero that a session begins with, or was computed. All of them are in base
units with an uncertainty that has no sign, since no quantity is otherwise; and if the constants are
finite then so are all, throughout every run.
-/

namespace Metrology

namespace Session

variable {session next : Session} {command : Command} {response : Response} {line : String}
  {quantity : Quantity Float}

/-- The quantities of a session: those it holds and the one that it gives for a next line. -/
inductive Has (session : Session) : Quantity Float → Prop where
  | held {quantity : Quantity Float} (holds : session.toEnvironment.Holds quantity) :
      Has session quantity
  | response {line : String} {quantity : Quantity Float}
      (gives : (session.respond line).1 = .ok (.quantity quantity)) : Has session quantity

theorem isFinite_of_evaluate {expression : List String}
    (held : ∀ quantity, session.Holds quantity → quantity.IsFinite)
    (computed : session.evaluate expression = .ok quantity) : quantity.IsFinite := by
  unfold evaluate at computed
  cases isValue : session.toEnvironment.evaluate expression with
  | error _ =>
      rw [isValue] at computed
      cases computed
  | ok value =>
      rw [isValue] at computed
      cases computed
      exact Environment.isFinite_of_evaluate held isValue

theorem holds_new {system : UnitSystem} {constants : Constants}
    (holds : (new system constants).Holds quantity) :
    quantity = .dimensionless 0 ∨ ∃ constant ∈ constants.entries, quantity = constant.quantity := by
  cases holds with
  | previous => exact .inl rfl
  | label found =>
      change Store.empty.get? _ = _ at found
      rw [Store.get?_empty] at found
      cases found
  | constant member => exact .inr ⟨_, member, rfl⟩

/-- What a command leaves in a session was there before or is the new previous answer. -/
theorem Performs.holds (performs : Performs session command response next)
    (holds : next.Holds quantity) : session.Holds quantity ∨ quantity = next.previous := by
  cases holds with
  | previous => exact .inr rfl
  | @label name _ found =>
      by_cases names : command.named? = some name
      · rcases (performs.leaves names).eq_label_iff.mp found with ⟨expression, rfl, rfl⟩
        cases performs with
        | assign _ _ _ => exact .inr rfl
      · rw [performs.get?_eq names] at found
        exact .inl (.label found)
  | constant member => cases performs <;> exact .inl (.constant member)

/-- The previous answer after a command is the one before or a value that the command computed. -/
theorem Performs.isFinite_previous
    (held : ∀ quantity, session.Holds quantity → quantity.IsFinite)
    (performs : Performs session command response next) : next.previous.IsFinite := by
  cases computes : command.computed? with
  | none =>
      rw [performs.previous_eq computes]
      exact held _ .previous
  | some expression => exact isFinite_of_evaluate held (performs.evaluate_eq_ok computes)

/-- Every command keeps the quantities of a session finite. -/
theorem isKept_isFinite :
    IsKept fun session => ∀ quantity, session.Holds quantity → quantity.IsFinite := by
  intro _ _ _ _ _ _ performs held quantity holds
  rcases performs.holds holds with before | rfl
  · exact held quantity before
  · exact performs.isFinite_previous held

/-- The quantity that a line is answered with has become the previous answer. -/
theorem previous_of_respond (gives : (session.respond line).1 = .ok (.quantity quantity)) :
    (session.after line).previous = quantity := by
  rcases session.success?_cases line with
    ⟨_, failed, _⟩ | ⟨command, response, _, answer, performs⟩
  · rw [gives] at failed
    cases failed
  · rw [gives, Except.ok.injEq] at answer
    subst answer
    generalize session.after line = next at performs ⊢
    cases performs <;> rfl

/-- If the constants are finite then so is every quantity that a session has after any lines. -/
theorem isFinite_of_has {system : UnitSystem} {constants : Constants} {lines : List String}
    (finite : ∀ constant ∈ constants.entries, constant.quantity.IsFinite)
    (has : ((new system constants).afterAll lines).Has quantity) : quantity.IsFinite := by
  have held : ∀ quantity, (new system constants).Holds quantity → quantity.IsFinite := by
    intro quantity holds
    rcases holds_new holds with rfl | ⟨constant, member, rfl⟩
    · exact Quantity.isFinite_ofBase (by decide +kernel) (by decide +kernel)
    · exact finite constant member
  have ofRun := isKept_isFinite.afterAll held lines
  cases has with
  | held holds => exact ofRun quantity holds
  | response gives =>
      rw [← previous_of_respond gives]
      exact isKept_isFinite.after ofRun _ _ .previous

/-- Every quantity that a session holds or gives, over any tables and after any lines, is in base
units and has an uncertainty without a sign, and if the constants are finite then so is every such
quantity, whichever operations, locks and names it has come through. -/
theorem quantities_sound_and_finite {system : UnitSystem} {constants : Constants}
    {lines : List String} (has : ((new system constants).afterAll lines).Has quantity) :
    quantity.IsSound ∧
      ((∀ constant ∈ constants.entries, constant.quantity.IsFinite) → quantity.IsFinite) :=
  ⟨quantity.isSound, fun finite => isFinite_of_has finite has⟩

end Session

/-- A half that is known to a quarter, the uncertainty given with a sign. -/
def Constants.half : Constants :=
  ofList [⟨"half", "Half", "One in two", .ofBase 0.5 (-0.25) .one⟩]

/-- Half of the two meters that a lock reaches, with the sign changed. The meters are given in
millimeters, and what is computed with them has no scale of its own either. -/
theorem Session.quantities_sound_and_finite_half :
    let quantity : Quantity Float := .ofBase (-1) 0.5 ⟨.ofBase .meter, 1⟩
    (∀ constant ∈ Constants.half.entries, constant.quantity.IsFinite) ∧
      ((new .builtin .half).afterAll
        ["a is 2000mm", "inner lock a neg", "outer lock inner half *", "outer"]).Has quantity ∧
      quantity.IsSound ∧ quantity.IsFinite := by
  intro quantity
  have finite : ∀ constant ∈ Constants.half.entries, constant.quantity.IsFinite := by
    intro constant member
    rcases List.mem_singleton.mp member with rfl
    exact Quantity.isFinite_ofBase (by decide +kernel) (by decide +kernel)
  have has : ((new .builtin .half).afterAll
      ["a is 2000mm", "inner lock a neg", "outer lock inner half *", "outer"]).Has quantity := by
    have isAnswer : ((new .builtin .half).afterAll
        ["a is 2000mm", "inner lock a neg", "outer lock inner half *", "outer"]).previous =
          quantity := by decide +kernel
    exact isAnswer ▸ .held .previous
  have result := quantities_sound_and_finite has
  exact ⟨finite, has, result.1, result.2 finite⟩

end Metrology

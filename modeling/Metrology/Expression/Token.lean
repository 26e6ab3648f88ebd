/-!
# Tokens of an expression

Expressions are written in postfix notation, one token to a word. A token is an operator, the
keyword for the previous answer, or an operand, whose meaning depends on what is stored.
-/

namespace Metrology

inductive BinaryOperator where
  | plus
  | minus
  | times
  | dividedBy
deriving DecidableEq, Repr

/-- What a token does, before any name is looked up. -/
inductive Token where
  /-- Combine the two topmost values; the topmost is the right operand. -/
  | binary (operator : BinaryOperator)
  | previous
  | negation
  /-- Raise the topmost value to a power, given by the characters after the caret. -/
  | power (exponent : List Char)
  /-- Push the value of a constant, a stored name or a literal. -/
  | operand
deriving DecidableEq, Repr

namespace Token

/-- What a written token does. -/
def ofString (written : String) : Token :=
  match written.toList with
  | ['+'] => binary .plus
  | ['-'] => binary .minus
  | ['*'] | ['x'] => binary .times
  | ['/'] => binary .dividedBy
  | ['a', 'n', 's'] => previous
  | ['n', 'e', 'g'] => negation
  | '^' :: exponent => power exponent
  | _ => operand

theorem eq_ofList_of_toList {written : String} {characters : List Char}
    (isText : written.toList = characters) : written = String.ofList characters := by
  rw [← isText, String.ofList_toList]

theorem ofString_eq_previous_iff {written : String} :
    ofString written = previous ↔ written = "ans" := by
  constructor
  · unfold ofString
    split
    case h_6 isText => exact fun _ => eq_ofList_of_toList isText
    all_goals exact fun impossible => nomatch impossible
  · rintro rfl
    rfl

/-- The operands are the tokens that are no operator and no keyword and do not begin with a
caret. -/
theorem ofString_eq_operand_iff {written : String} :
    ofString written = operand ↔
      written ∉ ["+", "-", "*", "x", "/", "ans", "neg"] ∧ written.toList.head? ≠ some '^' := by
  constructor
  · intro isOperand
    constructor
    · intro member
      simp only [List.mem_cons, List.not_mem_nil, or_false] at member
      rcases member with rfl | rfl | rfl | rfl | rfl | rfl | rfl <;> cases isOperand
    · intro caret
      cases isText : written.toList with
      | nil => simp [isText] at caret
      | cons first exponent =>
          simp only [isText, List.head?_cons, Option.some.injEq] at caret
          simp [ofString, isText, caret] at isOperand
  · rintro ⟨notReserved, noCaret⟩
    unfold ofString
    split
    case h_9 => rfl
    case h_8 isText => simp [isText] at noCaret
    all_goals
      rename_i isText
      rw [eq_ofList_of_toList isText] at notReserved
      exact absurd (by decide) notReserved

end Token

end Metrology

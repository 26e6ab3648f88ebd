import Mathlib.Data.List.Basic

/-!
# Patterns

A regular expression with numbered groups, and what it means to match the beginning of a text by
backtracking. `Pattern.ways` lists the ways in which a pattern matches, the preferred ones first: a
choice prefers its first side, and a repetition prefers to go on. The match of a pattern is the
first of its ways.
-/

namespace Metrology

inductive Pattern where
  | empty
  | one (allowed : Char → Bool)
  /-- Any number of characters, as many as possible. -/
  | many (allowed : Char → Bool)
  | sequence (first second : Pattern)
  | choice (preferred other : Pattern)
  | group (number : Nat) (inner : Pattern)
  /-- The end of the text. -/
  | atEnd

namespace Way

end Way

namespace Pattern

def character (required : Char) : Pattern :=
  one (· == required)

def word : List Char → Pattern
  | [] => empty
  | first :: rest => sequence (character first) (word rest)

/-- A pattern that may be left out, if it cannot be matched. -/
def optional (pattern : Pattern) : Pattern :=
  choice pattern empty

/-- One character or more. -/
def atLeastOne (allowed : Char → Bool) : Pattern :=
  sequence (one allowed) (many allowed)

variable {pattern first second preferred other : Pattern} {text rest : List Char} {way next : Way}
  {allowed : Char → Bool} {avoided : Char}

end Pattern

end Metrology

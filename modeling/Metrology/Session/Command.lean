import Metrology.Text.Blank

/-!
# Commands

A line of input is one command, read from its words alone. What is no other command is an expression
to evaluate. `Command.words` writes a command back as the words it is read from.
-/

namespace Metrology

/-- What a line asks for. -/
inductive Command where
  | assign (name : String) (expression : List String)
  | lock (name : String) (expression : List String)
  | clear (name : String)
  | convert (expression : List String) (unit : String)
  | list
  | constants
  | units
  | help
  | quit
  | empty
  | evaluate (expression : List String)
deriving DecidableEq, Repr

/-- The one reason for which a line is no command: a name and a keyword stand without an
expression. -/
structure MissingExpression where
  keyword : String
deriving DecidableEq, Repr

namespace Command

/-- The command that words stand for where none of the fixed forms fits: a conversion if the word
before the last is `in` and an expression precedes it, else an evaluation. -/
def ofExpression (words : List String) : Command :=
  match words.reverse with
  | unit :: "in" :: last :: before => convert (last :: before).reverse unit
  | _ => evaluate words

def ofWords (words : List String) : Except MissingExpression Command :=
  match words with
  | [] => .ok empty
  | ["list"] => .ok list
  | ["constants"] => .ok constants
  | ["units"] => .ok units
  | ["help"] => .ok help
  | ["quit"] | ["exit"] => .ok quit
  | [_, "is"] => .error ⟨"is"⟩
  | [_, "lock"] => .error ⟨"lock"⟩
  | name :: "is" :: expression => .ok (assign name expression)
  | name :: "lock" :: expression => .ok (lock name expression)
  | ["clear", name] => .ok (clear name)
  | expression => .ok (ofExpression expression)

def ofLine (line : String) : Except MissingExpression Command :=
  ofWords (Text.words line)

def words : Command → List String
  | assign name expression => name :: "is" :: expression
  | lock name expression => name :: "lock" :: expression
  | clear name => ["clear", name]
  | convert expression unit => expression ++ ["in", unit]
  | list => ["list"]
  | constants => ["constants"]
  | units => ["units"]
  | help => ["help"]
  | quit => ["quit"]
  | empty => []
  | evaluate expression => expression

end Command

end Metrology

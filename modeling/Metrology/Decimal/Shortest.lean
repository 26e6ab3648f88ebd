import Metrology.Decimal.Basic

/-!
# The shortest decimal of a floating-point number

A finite binary64 number is printed with the fewest decimal digits that read back as the same
number. For one digit, two digits and so on the two neighbours of the exact value on that decimal
grid are formed in exact arithmetic, and the first grid with a neighbour that reads back wins. Of
two such neighbours the nearer one is taken; `Tie` says what happens half way between them.
-/

namespace Metrology

/-- What becomes of a value half way between two shortest decimals. -/
inductive Tie where
  /-- The neighbour of larger magnitude is taken. -/
  | away
  /-- The neighbour whose last digit is even is taken. -/
  | even
deriving DecidableEq, Repr

namespace Decimal

/-- The magnitude of a finite binary64 number as an exact fraction whose denominator is a power of
two. -/
def fractionOf (number : Float) : Nat × Nat :=
  let bits := number.toBits.toNat
  let field := bits / Nat.pow 2 52 % Nat.pow 2 11
  let fraction := bits % Nat.pow 2 52
  let significand := if field = 0 then fraction else fraction + Nat.pow 2 52
  let power : Int := (Nat.max field 1 : Nat) - 1075
  (significand * Nat.pow 2 power.toNat, Nat.pow 2 (-power).toNat)

/-- Whether the sign bit of a binary64 number is set. -/
def signOf (number : Float) : Bool :=
  Nat.pow 2 63 ≤ number.toBits.toNat

/-- Whether a decimal reads as the given binary64 number, bit by bit. -/
def readsAs (decimal : Decimal) (number : Float) : Bool :=
  decimal.toFloat.toBits == number.toBits

/-- The fraction `numerator / denominator` times a power of ten, as a fraction again. -/
def scaleFraction (numerator denominator : Nat) (power : Int) : Nat × Nat :=
  (numerator * Nat.pow 10 power.toNat, denominator * Nat.pow 10 (-power).toNat)

/-- The position of the decimal point of a positive fraction whose denominator is a power of two:
the fraction is at least `10 ^ (point - 1)` and below `10 ^ point`. The binary logarithm gives an
estimate that is at most two too small. -/
def pointOf (numerator denominator : Nat) : Int :=
  let estimate := (((numerator.log2 : Int) - denominator.log2) * 30103).fdiv 100000
  let (scaled, unit) := scaleFraction numerator denominator (-estimate)
  if 10 * unit ≤ scaled then estimate + 2
  else if unit ≤ scaled then estimate + 1
  else estimate

/-- The neighbour on the grid of multiples of `10 ^ (-power)` that reads back as the number and is
nearest to it, if either neighbour reads back. -/
def onGrid? (tie : Tie) (number : Float) (power : Int) : Option Decimal :=
  let (numerator, denominator) := fractionOf number
  let (scaled, unit) := scaleFraction numerator denominator power
  let lower : Decimal := ⟨signOf number, scaled / unit, -power⟩
  let upper : Decimal := { lower with coefficient := lower.coefficient + 1 }
  let remainder := scaled % unit
  match lower.readsAs number, upper.readsAs number with
  | true, true =>
      if 2 * remainder < unit then some lower
      else if unit < 2 * remainder then some upper
      else if tie = .even ∧ lower.coefficient % 2 = 0 then some lower
      else some upper
  | true, false => some lower
  | false, true => some upper
  | false, false => none

/-- The shortest decimal that reads back as a finite number, with no zero at its end. Seventeen
digits always suffice. -/
def shortest (tie : Tie) (number : Float) : Decimal :=
  let (numerator, denominator) := fractionOf number
  if numerator = 0 then ⟨signOf number, 0, 0⟩
  else
    let point := pointOf numerator denominator
    let found := (List.range 17).findSome? fun (digits : Nat) =>
      onGrid? tie number (digits + 1 - point)
    match found with
    | some decimal => stripZeros decimal.negative decimal.coefficient decimal.exponent
    | none => ⟨signOf number, numerator / denominator, 0⟩

end Decimal

end Metrology

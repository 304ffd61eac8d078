import Lox.Number.Decimal

/-!
# The shortest text of a number

A finite number is written with the fewest digits that read back to it. Its own decimal is exact
but long; the search runs over coarser and coarser roundings of it, the coarsest first, and stops
at the first one at which a neighbour of the value reads back.

* `Number.exact` — the decimal that is equal to a finite number.
* `Number.onGrid?` — the neighbour among the multiples of one power of ten that reads back: the
  nearer one if both do, the upper one on a tie.
* `Number.shortest` — the neighbour for the largest such power of ten.
* `Number.text` — the positional numeral with its sign; `inf` and `NaN` for the values that
  have none.
-/

namespace Lox

namespace Number

/-- The value without its sign. -/
def abs (x : Number) : Number := ofMagnitude x.magnitude

/-- The decimal equal to the absolute value of a finite number: a negative power of two is a
power of five over one of ten. -/
def exact (x : Number) : Decimal :=
  let places := 1074 - x.exponent
  ⟨(x.significand <<< (x.exponent - 1074)) * Nat.pow 5 places, -(places : Int)⟩

/-- A neighbour of `x` with `c` digits less than its exact decimal `d` that reads back to `x`. -/
def onGrid? (x : Number) (d : Decimal) (c : Nat) : Option Decimal :=
  let unit := Nat.pow 10 c
  let below : Decimal := ⟨d.digits / unit, d.exponent + c⟩
  let above : Decimal := ⟨d.digits / unit + 1, d.exponent + c⟩
  let lowerIsNearer := 2 * (d.digits % unit) < unit
  if below.toNumber = x then
    if ¬ lowerIsNearer ∧ above.toNumber = x then some above else some below
  else if above.toNumber = x then some above else none

/-- The first neighbour of `x` that reads back, from `c` digits less than the exact decimal `d`
down to none less. -/
def searchGrid (x : Number) (d : Decimal) : Nat → Decimal
  | 0 => d
  | c + 1 => (x.onGrid? d (c + 1)).getD (x.searchGrid d c)

/-- Not less than the number of decimal digits of `n`: a binary digit is less than 0.30103
decimal digits. -/
def digitBound (n : Nat) : Nat := (n.log2 + 1) * 30103 / 100000 + 1

/-- The decimal with the fewest digits that reads back to a finite number without sign. -/
def shortest (x : Number) : Decimal :=
  if x.isZero then ⟨0, 0⟩ else x.searchGrid x.exact (digitBound x.exact.digits)

/-- The text of the absolute value. -/
def absText (x : Number) : List Char :=
  if x.isInfinite then ['i', 'n', 'f'] else x.abs.shortest.numeral

/-- The text of a number. -/
def text (x : Number) : String :=
  if x.isNaN then "NaN"
  else if x.isNegative then String.ofList ('-' :: x.absText)
  else String.ofList x.absText

end Number

end Lox

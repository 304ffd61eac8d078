import Lox.Number.Basic

/-!
# Rounding a ratio

The number nearest to a ratio of natural numbers, computed exactly.

* `roundQuotient` — a quotient rounded to the nearest integer, ties to even.
* `Number.ofRatio` — the number nearest to a ratio, ties to even; infinity when it is too large.
* `Number.significand`, `Number.exponent` — the value of a magnitude is
  `significand · 2 ^ (exponent - 1074)`.

A finite magnitude `m · 2 ^ (e - 1074)` with `m` below `2 ^ 53` has the bits `e · 2 ^ 52 + m`
whether it is subnormal (`e = 0`), normal (`2 ^ 52 ≤ m`), or the rounding has carried `m` to
`2 ^ 53`; so one formula covers all of them.
-/

namespace Lox

/-- The quotient `num / den` rounded to the nearest natural number, a tie to the even one. -/
def roundQuotient (num den : Nat) : Nat :=
  let q := num / den
  let twice := 2 * (num % den)
  if twice < den then q
  else if den < twice then q + 1
  else if q % 2 = 0 then q else q + 1

namespace Number

/-- The exponent, counted from that of the least subnormal, of the magnitudes around
`num / den`: the largest `e` with `2 ^ 52 ≤ (num / den) / 2 ^ (e - 1074)`, and 0 below all of
these. The logarithms of `num` and `den` fix it up to one. -/
def binade (num den : Nat) : Nat :=
  let e := num.log2 + 1022 - den.log2
  if num = 0 then 0
  else if num <<< 1074 < den <<< (e + 52) then e - 1
  else e

/-- The number nearest to `num / den`, a tie to the even significand. -/
def ofRatio (num den : Nat) : Number :=
  let e := binade num den
  ofMagnitude (e * exponentWeight + roundQuotient (num <<< 1074) (den <<< e))

/-- The significand of a finite value. -/
def significand (x : Number) : Nat :=
  let f := x.magnitude % exponentWeight
  if x.magnitude < exponentWeight then f else exponentWeight + f

/-- The exponent of a finite value, counted from that of the least subnormal. -/
def exponent (x : Number) : Nat := x.magnitude / exponentWeight - 1

end Number

end Lox

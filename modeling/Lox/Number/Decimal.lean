import Lox.Number.Rounding

/-!
# Decimals

Decimal numbers with a power of ten, read from a numeral and written positionally.

* `Decimal.toNumber` — the number nearest to a decimal, so numerals are read with one rounding.
* `Decimal.ofNumeral` — the value of a numeral: digits with at most one point inside.
* `Decimal.numeral` — the positional numeral: never an exponent, a point only where digits
  follow it, and a digit before every point.
-/

namespace Lox

/-- The value `digits · 10 ^ exponent`. -/
structure Decimal where
  digits : Nat
  exponent : Int
  deriving DecidableEq

namespace Decimal

/-- The number nearest to the decimal, a tie to the even significand. -/
def toNumber (d : Decimal) : Number :=
  Number.ofRatio (d.digits * Nat.pow 10 d.exponent.toNat) (Nat.pow 10 (-d.exponent).toNat)

/-- The value of a numeral. Every digit behind the point lowers the exponent by one. -/
def ofNumeral (numeral : List Char) : Decimal :=
  let whole := numeral.takeWhile (· ≠ '.')
  let fraction := (numeral.dropWhile (· ≠ '.')).drop 1
  ⟨Nat.ofDigitChars 10 (whole ++ fraction) 0, -(fraction.length : Int)⟩

/-- The positional numeral: zeros behind the digits for a positive exponent, otherwise a point
before the last `-exponent` digits, with zeros in front where there are too few. -/
def numeral (d : Decimal) : List Char :=
  let places := (-d.exponent).toNat
  let digits := Nat.toDigits 10 d.digits ++ List.replicate d.exponent.toNat '0'
  let padded := List.replicate (places + 1 - digits.length) '0' ++ digits
  if places = 0 then padded
  else padded.take (padded.length - places) ++ '.' :: padded.drop (padded.length - places)

end Decimal

end Lox

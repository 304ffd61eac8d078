/-!
# Numbers

A number is a binary64 value, kept as its 64 bits. Order and equality are decided on the bits
alone: the bits below the sign are the magnitude, magnitudes beyond that of infinity are the
values that are no numbers, and every other value is ordered by its signed magnitude.

* `Number.key` — the signed magnitude; both zeros have key 0.
* `Number.compare?` — the order of two numbers, none when one of them is not a number.
* `Number.same` — equality of numbers: both zeros are equal, a value that is not a number
  equals nothing.
* `Number.neg`, `Number.add`, `Number.sub`, `Number.mul`, `Number.div` — arithmetic with one
  rounding to nearest.
-/

namespace Lox

/-- A binary64 value, given by its bits. -/
structure Number where
  bits : UInt64
  deriving DecidableEq

namespace Number

/-- The weight of the sign bit. -/
def signWeight : Nat := 0x8000000000000000

/-- The weight of the lowest bit of the exponent: there are so many significands. -/
def exponentWeight : Nat := 0x10000000000000

/-- The bits below the sign, read as a natural number. -/
def magnitude (x : Number) : Nat := x.bits.toNat % signWeight

/-- The sign bit is set. -/
def isNegative (x : Number) : Bool := decide (signWeight ≤ x.bits.toNat)

/-- The magnitude of the two infinities. -/
def infiniteMagnitude : Nat := 0x7FF * exponentWeight

/-- Neither finite nor infinite. -/
def isNaN (x : Number) : Bool := decide (infiniteMagnitude < x.magnitude)

/-- One of the two infinities. -/
def isInfinite (x : Number) : Bool := x.magnitude == infiniteMagnitude

/-- Finite: zero, subnormal or normal. -/
def isFinite (x : Number) : Bool := decide (x.magnitude < infiniteMagnitude)

/-- One of the two zeros. -/
def isZero (x : Number) : Bool := x.magnitude == 0

/-- The value of a magnitude without sign; beyond infinity there is only infinity. -/
def ofMagnitude (m : Nat) : Number := ⟨(min m infiniteMagnitude).toUInt64⟩

/-- The magnitude with its sign. Among values that are numbers it grows with the value. -/
def key (x : Number) : Int := if x.isNegative then -(x.magnitude : Int) else x.magnitude

/-- The order of two numbers; none if one of them is not a number. -/
def compare? (x y : Number) : Option Ordering :=
  if x.isNaN || y.isNaN then none else some (compare x.key y.key)

/-- Equality of numbers. -/
def same (x y : Number) : Bool := x.compare? y == some .eq

/-- The value with the other sign; all other bits are kept. -/
def neg (x : Number) : Number := ⟨x.bits ^^^ 0x8000000000000000⟩

/-- An operation on the values, rounded once to nearest, ties to even. -/
def lift₂ (f : Float → Float → Float) (x y : Number) : Number :=
  ⟨(f (Float.ofBits x.bits) (Float.ofBits y.bits)).toBits⟩

/-- The sum. -/
def add : Number → Number → Number := lift₂ (· + ·)

/-- The difference. -/
def sub : Number → Number → Number := lift₂ (· - ·)

/-- The product. -/
def mul : Number → Number → Number := lift₂ (· * ·)

/-- The quotient. -/
def div : Number → Number → Number := lift₂ (· / ·)

end Number

end Lox

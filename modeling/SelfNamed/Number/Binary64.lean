/-!
# Floating-point numbers as exact values

A number of the binary64 format is kept as its 64-bit word and read as sign, integer and power of
two. Every operation is exact arithmetic on natural numbers followed by one rounding to the nearest
word, a half going to the even one. So reading a decimal, multiplying and dividing are functions
that a proof can see through, and no machine arithmetic is involved.
-/

namespace SelfNamed

/-- A number of the binary64 format, given by its word. -/
structure Binary64 where
  /-- Sign bit, eleven exponent bits, fifty-two fraction bits. -/
  bits : UInt64
  deriving DecidableEq, Repr

namespace Binary64

/-- One past the greatest fraction. -/
def fractionBound : Nat := Nat.pow 2 52

/-- The word of positive infinity, the least that is not finite. -/
def infinityBits : Nat := 2047 * Nat.pow 2 52

/-- The word without its sign bit. -/
def magnitudeBits (x : Binary64) : Nat := x.bits.toNat % Nat.pow 2 63

/-- Whether the sign bit is set. -/
def isNegative (x : Binary64) : Bool := decide (Nat.pow 2 63 ≤ x.bits.toNat)

/-- Whether the number is neither infinite nor undefined. -/
def isFinite (x : Binary64) : Bool := decide (x.magnitudeBits < infinityBits)

/-- Whether the number is undefined. -/
def isUndefined (x : Binary64) : Bool := decide (infinityBits < x.magnitudeBits)

/-- A zero of either sign. -/
def isZero (x : Binary64) : Bool := decide (x.magnitudeBits = 0)

/-- The number with a word below the sign bit and a sign. -/
def ofMagnitude (negative : Bool) (magnitude : Nat) : Binary64 :=
  ⟨UInt64.ofNat (if negative then Nat.pow 2 63 + magnitude else magnitude)⟩

/-- Positive zero. -/
def zero : Binary64 := ⟨0⟩

/-- Positive infinity. -/
def infinity : Binary64 := ofMagnitude false infinityBits

/-- An undefined number. -/
def undefined : Binary64 := ofMagnitude false (infinityBits + Nat.pow 2 51)

/-- The number of the other sign. -/
def negate (x : Binary64) : Binary64 := ofMagnitude (!x.isNegative) x.magnitudeBits

/-- The integer part of the exact value: the value is this times two to the `exponent`. -/
def significand (x : Binary64) : Nat :=
  let field := x.magnitudeBits / fractionBound
  let fraction := x.magnitudeBits % fractionBound
  if field = 0 then fraction else fractionBound + fraction

/-- The power of two of the exact value. -/
def exponent (x : Binary64) : Int :=
  let field := x.magnitudeBits / fractionBound
  if field = 0 then -1074 else (field : Int) - 1075

/-- The quotient rounded to the nearest natural number, a half to the even one. -/
def roundDiv (num den : Nat) : Nat :=
  let quotient := num / den
  let rest := num % den
  if den < 2 * rest ∨ (2 * rest = den ∧ quotient % 2 = 1) then quotient + 1 else quotient

/-- A quotient times a power of two, as one quotient. -/
def scaled (num den : Nat) (power : Int) : Nat × Nat :=
  if 0 ≤ power then (num * Nat.pow 2 power.toNat, den) else (num, den * Nat.pow 2 (-power).toNat)

/-- The nearest number to a quotient, without sign; past the greatest finite number it is infinity.
-/
def ofRatio (num den : Nat) : Binary64 :=
  if num = 0 then zero
  else
    let low : Int := max ((num.log2 : Int) - (den.log2 : Int) - 53) (-1074)
    let (n, d) := scaled num den (-low)
    let power := if n / d < 2 * fractionBound then low else low + 1
    let (n, d) := scaled num den (-power)
    let magnitude := (power + 1074).toNat * fractionBound + roundDiv n d
    if magnitude < infinityBits then ofMagnitude false magnitude else infinity

/-- The nearest number to a decimal `digits · 10 ^ power`, without sign. -/
def ofDecimal (digits : Nat) (power : Int) : Binary64 :=
  if 0 ≤ power then ofRatio (digits * Nat.pow 10 power.toNat) 1
  else ofRatio digits (Nat.pow 10 (-power).toNat)

/-- The nearest number to the product of two numbers without sign. -/
def mul (x y : Binary64) : Binary64 :=
  let (n, d) := scaled (x.significand * y.significand) 1 (x.exponent + y.exponent)
  ofRatio n d

/-- The nearest number to the quotient of two numbers without sign. -/
def div (x y : Binary64) : Binary64 :=
  let (n, d) := scaled x.significand y.significand (x.exponent - y.exponent)
  ofRatio n d

end Binary64

end SelfNamed

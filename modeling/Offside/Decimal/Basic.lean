import Offside.Power

/-!
# `Offside.Decimal.Basic`: decimals as binary fractions

A decimal of the language is a 64-bit binary floating-point number. Everything the program
does with one is decided by its bit pattern, so `Decimal` is that pattern: a sign, eleven
bits of exponent and fifty-two bits of fraction. A finite decimal has the magnitude
`significand * 2 ^ exponent`, both exact, and every later definition computes on those two
numbers.

`Decimal.ofRatio` goes the other way: it finds the decimal nearest to an exact ratio of
natural numbers, with ties to the even significand, gradual underflow and overflow to
infinity. `Decimal.ofDigits` reads written digits through it.
-/

set_option autoImplicit false

namespace Offside

/-- A 64-bit binary floating-point number, given by its bits. -/
structure Decimal where
  /-- One bit of sign, eleven of exponent, fifty-two of fraction. -/
  bits : UInt64
deriving DecidableEq, Repr, Inhabited

namespace Decimal

/-! ### Taking a decimal apart -/

/-- Whether the sign bit is set; the sign of zero counts. -/
def isNegative (d : Decimal) : Bool := twoTo 63 ≤ d.bits.toNat

/-- The eleven bits of exponent. -/
def exponentField (d : Decimal) : Nat := d.bits.toNat / twoTo 52 % twoTo 11

/-- The fifty-two bits of fraction. -/
def fraction (d : Decimal) : Nat := d.bits.toNat % twoTo 52

/-- Neither an infinity nor a NaN. -/
def isFinite (d : Decimal) : Bool := d.exponentField != 2047

/-- A pattern that stands for no number at all. -/
def isNaN (d : Decimal) : Bool := d.exponentField == 2047 && d.fraction != 0

/-- The integer part of the magnitude's binary notation. A zero exponent field marks the
numbers too small for a leading one bit. -/
def significand (d : Decimal) : Nat :=
  if d.exponentField = 0 then d.fraction else d.fraction + twoTo 52

/-- The power of two that the significand counts. -/
def exponent (d : Decimal) : Int :=
  if d.exponentField = 0 then -1074 else (d.exponentField : Int) - 1075

/-- Whether the number is finite and has no fractional part. -/
def isIntegral (d : Decimal) : Bool :=
  d.isFinite && (0 ≤ d.exponent || d.significand % twoTo (-d.exponent).toNat == 0)

/-- The magnitude of an integral decimal. -/
def magnitude (d : Decimal) : Nat :=
  d.significand * twoTo d.exponent.toNat / twoTo (-d.exponent).toNat

/-! ### Rounding -/

/-- The integer nearest to a quotient; a tie goes to the even one. -/
def roundQuotient (num den : Nat) : Nat :=
  let below := num / den
  let twice := 2 * (num % den)
  if twice < den then below
  else if den < twice then below + 1
  else below + below % 2

/-- The exponent of the greatest power of two that is at most `num / den`. -/
def floorLog2 (num den : Nat) : Int :=
  let guess := (num.log2 : Int) - den.log2
  if den * twoTo guess.toNat ≤ num * twoTo (-guess).toNat then guess else guess - 1

/-- The pattern of positive infinity. -/
def infinity : Decimal := ⟨0x7ff0000000000000⟩

/-- The decimal nearest to `num / den`. The significand gets fifty-three bits, or fewer where
the exponent is already at its least value; a ratio too large for the format gives
infinity. Consecutive magnitudes have consecutive patterns, so a significand rounded up to
the next power of two needs no case of its own. -/
def ofRatio (num den : Nat) : Decimal :=
  if num = 0 then ⟨0⟩
  else
    -- Fifty-three significant bits, unless the number is too small for them.
    let exponent := max (-1074) (floorLog2 num den - 52)
    let significand := roundQuotient (num * twoTo (-exponent).toNat) (den * twoTo exponent.toNat)
    let pattern := (exponent + 1074).toNat * twoTo 52 + significand
    if pattern < infinity.bits.toNat then ⟨UInt64.ofNat pattern⟩ else infinity

/-! ### Reading digits -/

/-- The value of decimal digits. -/
def digitsValue (digits : List Char) : Nat :=
  digits.foldl (fun n c => 10 * n + (c.toNat - '0'.toNat)) 0

/-- The decimal nearest to the digits `whole` before the point and `part` after it. -/
def ofDigits (whole part : List Char) : Decimal :=
  ofRatio (digitsValue (whole ++ part)) (tenTo part.length)

/-- The decimal with the opposite sign. -/
def negate (d : Decimal) : Decimal := ⟨d.bits ^^^ 0x8000000000000000⟩

/-- The decimal nearest to `digits * 10 ^ power`. Powers so far out that they decide the answer
alone are not computed. -/
def ofPower (digits : Nat) (power : Int) : Decimal :=
  let size := power + (Nat.toDigits 10 digits).length
  if digits = 0 ∨ size < -330 then ⟨0⟩
  else if 330 < size then infinity
  else ofRatio (digits * tenTo power.toNat) (tenTo (-power).toNat)

end Decimal

end Offside

import Offside.Decimal.Basic

/-!
# `Offside.Decimal.Shortest`: the fewest digits that read back

A decimal is written with as few digits as still identify it. All reals nearer to it than to
any other decimal form an interval around it, which includes its two ends exactly when the
significand is even. For one digit, two digits and so on up to seventeen, `shortest` looks at
the two multiples of the power of ten just below and just above the number; the first count
of digits with a multiple inside the interval wins. Of two such multiples the nearer is
taken, and the upper one where both are equally near.
-/

set_option autoImplicit false

namespace Offside

/-- A decimal numeral: an integer of some digits, times a power of ten. -/
structure Numeral where
  /-- The digits, read as an integer. -/
  digits : Nat
  /-- The power of ten that the integer counts. -/
  power : Int
deriving DecidableEq, Repr

namespace Decimal

/-- The reals that read as one decimal: the decimal itself and the two ends of the interval
around it, as numerators over one denominator. -/
structure Interval where
  /-- The lower end. -/
  low : Nat
  /-- The decimal itself. -/
  mid : Nat
  /-- The upper end. -/
  high : Nat
  /-- The common denominator. -/
  den : Nat
  /-- Whether the two ends read as the decimal too. -/
  closed : Bool

/-- The interval of a finite decimal, in quarters of the unit of its significand. Just below
a power of two the next smaller decimal is only half as far away. -/
def interval (d : Decimal) : Interval :=
  let m := d.significand
  let gapBelow := if d.fraction = 0 ∧ 1 < d.exponentField then 1 else 2
  let scale := twoTo (d.exponent - 2).toNat
  { low := (4 * m - gapBelow) * scale
    mid := 4 * m * scale
    high := (4 * m + 2) * scale
    den := twoTo (2 - d.exponent).toNat
    closed := m % 2 == 0 }

/-- Whether `num / den` lies in the interval. -/
def Interval.contains (i : Interval) (num den : Nat) : Bool :=
  if i.closed then i.low * den ≤ num * i.den && num * i.den ≤ i.high * den
  else i.low * den < num * i.den && num * i.den < i.high * den

/-- The number of decimal digits of a natural number. -/
def countDigits (n : Nat) : Nat := (Nat.toDigits 10 n).length

/-- The exponent of the greatest power of ten that is at most `num / den`, for a positive
ratio. -/
def floorLog10 (num den : Nat) : Int :=
  if den ≤ num then (countDigits (num / den) : Int) - 1
  else -(countDigits ((den - 1) / num) : Int)

/-- The numeral nearest to the interval's middle among the multiples of `10 ^ power` inside
it. -/
def Interval.nearest? (i : Interval) (power : Int) : Option Numeral :=
  let up := tenTo power.toNat
  let down := tenTo (-power).toNat
  -- One side of the fraction is scaled, the other by one.
  let below := i.mid * down / (i.den * up)
  let above := below + 1
  let candidate (k : Nat) := i.contains (k * up) down
  if candidate above && (!candidate below ||
      2 * i.mid * down ≥ (below + above) * (i.den * up)) then some ⟨above, power⟩
  else if candidate below then some ⟨below, power⟩
  else none

/-- The shortest numeral that reads as a finite decimal other than zero. -/
def shortest (d : Decimal) : Numeral :=
  let i := d.interval
  let first := floorLog10 i.mid i.den
  ((List.range 17).findSome? (fun (k : Nat) => i.nearest? (first - k))).getD ⟨0, 0⟩

end Decimal

end Offside
